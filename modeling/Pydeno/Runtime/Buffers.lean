import Pydeno.Runtime.Model.Buffers
/-!
# What the budget counts

The live count is the bytes of the live backing stores and the committed pages
of the tracked buffers; it stays within the cap, and no release ever takes more
than is there (`Accounted`). A refusal changes none of that but for the entries
of collected buffers (`Unchanged`), with one exception: the first charge of a
buffer enters it in the table before it asks for its bytes, so that a refusal
there leaves a buffer that holds nothing in the table.
-/

namespace Pydeno.Runtime

open Buffers List

namespace Buffers

/-- The bytes of the live backing stores. -/
def fixedBytes (s : Buffers) : ℕ := (s.fixed.entries.map Prod.snd).sum

/-- The bytes of the table's entries. -/
def held (s : Buffers) : ℕ := (s.entries.entries.map fun e => e.2.2).sum

/-! ## The invariant -/

/-- **The books are in order**, with `pending` bytes reserved that are not yet
entered. -/
structure Ok (page : ℕ+) (cap : ℕ) (s : Buffers) (pending : ℕ) : Prop where
  live : s.live = s.fixedBytes + s.held + pending
  limit : s.cap = cap
  within : s.live ≤ cap
  unsaturated : s.saturated = false
  stores : ∀ e ∈ s.fixed.entries, e.1 < s.nextStore
  tags : ∀ {id b n}, (id, b, n) ∈ s.entries.entries → s.tag b = some id
  ids : ∀ {b id}, s.tag b = some id → id ≤ s.nextId
  owner : ∀ {b b' id}, s.tag b = some id → s.tag b' = some id → b = b'
  bytes : ∀ {id b n}, (id, b, n) ∈ s.entries.entries → n = committedPages page (s.size b)
  tracked : ∀ b ∉ s.collected, 0 < committedPages page (s.size b) →
    ∃ id, (id, b, committedPages page (s.size b)) ∈ s.entries.entries

/-- **Nothing changes** but for entries of collected buffers. -/
structure Unchanged (s s' : Buffers) : Prop where
  fixed : s'.fixed = s.fixed
  size : s'.size = s.size
  live : s'.live + s.held = s.live + s'.held
  collected : ∀ b ∈ s.collected, b ∈ s'.collected
  kept : ∀ e ∈ s'.entries.entries, e ∈ s.entries.entries
  gone : ∀ e ∈ s.entries.entries, e ∉ s'.entries.entries → e.2.1 ∈ s'.collected

theorem Unchanged.refl (s : Buffers) : Unchanged s s :=
  ⟨rfl, rfl, rfl, fun _ h => h, fun _ h => h, fun _ h hn => absurd h hn⟩

theorem Unchanged.trans {s s' s'' : Buffers} (h : Unchanged s s') (h' : Unchanged s' s'') :
    Unchanged s s'' where
  fixed := h'.fixed.trans h.fixed
  size := h'.size.trans h.size
  live := by
    have := h.live
    have := h'.live
    omega
  collected := fun b hb => h'.collected b (h.collected b hb)
  kept := fun e he => h.kept e (h'.kept e he)
  gone := fun e he hn => by
    by_cases hmid : e ∈ s'.entries.entries
    · exact h'.gone e hmid hn
    · exact h'.collected _ (h.gone e he hmid)

section

variable {page : ℕ+} {cap : ℕ} {s s' : Buffers} {pending : ℕ}

theorem ok_new (cap : ℕ) : Ok page cap (.new cap) 0 where
  live := rfl
  limit := rfl
  within := Nat.zero_le _
  unsaturated := rfl
  stores := fun _ he => (not_mem_nil he).elim
  tags := fun he => (not_mem_nil he).elim
  ids := nofun
  owner := nofun
  bytes := fun he => (not_mem_nil he).elim
  tracked := fun _ _ h => absurd h (lt_irrefl 0)

/-! ## The budget's own steps -/

variable {len b id current : ℕ} {gc : List ℕ}

/-- **What a granted reservation does.** -/
theorem reserve_eq_some (h : s.reserve len = some s') :
    s' = { s with live := s.live + len } ∧ s.live + len ≤ s.cap := by
  unfold reserve checkedAdd at h
  rw [Option.map_eq_some_iff] at h
  obtain ⟨total, htotal, rfl⟩ := h
  rw [Option.filter_eq_some_iff] at htotal
  obtain ⟨hsum, hcap⟩ := htotal
  split at hsum
  · cases hsum
    exact ⟨rfl, by simpa using hcap⟩
  · cases hsum

/-- **What a release does** that does not ask for too much. -/
theorem release_eq (h : len ≤ s.live) : s.release len = { s with live := s.live - len } := by
  have : ¬ s.live < len := by omega
  simp only [release, this, decide_false, Bool.or_false]

theorem foldl_release (l : List (ℕ × ℕ × ℕ)) (h : (l.map fun e => e.2.2).sum ≤ s.live) :
    l.foldl (fun s e => s.release e.2.2) s =
      { s with live := s.live - (l.map fun e => e.2.2).sum } := by
  induction l generalizing s with
  | nil => rfl
  | cons e l ih =>
    simp only [map_cons, sum_cons] at h ⊢
    have hrest : (l.map fun e => e.2.2).sum ≤ s.live - e.2.2 := by omega
    rw [foldl_cons, release_eq (by omega), ih hrest]
    simp only [Nat.sub_sub]

theorem held_sweep_le (s : Buffers) : s.sweep.held ≤ s.held := by
  have h := Dict.sum_filter s.entries (fun e => decide (e.2.1 ∉ s.collected)) fun e => e.2.2
  unfold held sweep
  simp only
  omega

section

variable (h : Ok page cap s pending)
include h

/-- **What a sweep does.** -/
theorem Ok.sweep_eq :
    s.sweep =
        { s with
          live := s.sweep.live
          entries := s.entries.filter fun e => e.2.1 ∉ s.collected
          sweepAt := s.sweep.sweepAt } ∧
      s.sweep.live + s.held = s.live + s.sweep.held := by
  have hsplit := Dict.sum_filter s.entries (fun e => decide (e.2.1 ∉ s.collected)) fun e => e.2.2
  have hgone : (s.entries.entries.filter fun e => !decide (e.2.1 ∉ s.collected)) =
      s.entries.entries.filter fun e => decide (e.2.1 ∈ s.collected) :=
    filter_congr fun e _ => by simp
  rw [hgone] at hsplit
  have hlive := h.live
  have hle : ((s.entries.entries.filter fun e => decide (e.2.1 ∈ s.collected)).map
      fun e => e.2.2).sum ≤ s.live := by
    unfold held at hlive
    omega
  unfold held sweep
  rw [foldl_release _ hle]
  refine ⟨rfl, ?_⟩
  simp only
  omega

theorem Ok.mem_sweep {e : ℕ × ℕ × ℕ} :
    e ∈ s.sweep.entries.entries ↔ e ∈ s.entries.entries ∧ e.2.1 ∉ s.collected := by
  rw [h.sweep_eq.1]
  simp only [Dict.filter, mem_filter, decide_eq_true_eq]

theorem Ok.unchanged_sweep : Unchanged s s.sweep where
  fixed := by rw [h.sweep_eq.1]
  size := by rw [h.sweep_eq.1]
  live := h.sweep_eq.2
  collected := by
    rw [h.sweep_eq.1]
    exact fun _ hb => hb
  kept := fun e he => (h.mem_sweep.1 he).1
  gone := fun e he hn => by
    by_contra hc
    refine hn (h.mem_sweep.2 ⟨he, fun hmem => hc ?_⟩)
    rw [h.sweep_eq.1]
    exact hmem

theorem Ok.sweep : Ok page cap s.sweep pending where
  live := by
    have hlive := h.live
    have hswept := h.sweep_eq.2
    have hfixed : s.sweep.fixedBytes = s.fixedBytes := by
      unfold fixedBytes
      rw [h.unchanged_sweep.fixed]
    omega
  limit := by
    rw [h.sweep_eq.1]
    exact h.limit
  within := by
    have hwithin := h.within
    have hswept := h.sweep_eq.2
    have hheld := s.held_sweep_le
    omega
  unsaturated := by
    rw [h.sweep_eq.1]
    exact h.unsaturated
  stores := by
    rw [h.sweep_eq.1]
    exact h.stores
  tags := fun he => by
    rw [h.sweep_eq.1]
    exact h.tags (h.mem_sweep.1 he).1
  ids := by
    rw [h.sweep_eq.1]
    exact h.ids
  owner := by
    rw [h.sweep_eq.1]
    exact h.owner
  bytes := fun he => by
    rw [h.sweep_eq.1]
    exact h.bytes (h.mem_sweep.1 he).1
  tracked := fun b hb hpos => by
    rw [h.unchanged_sweep.size] at hpos ⊢
    have hb' : b ∉ s.collected := fun hmem => hb (h.unchanged_sweep.collected b hmem)
    obtain ⟨id, hid⟩ := h.tracked b hb' hpos
    exact ⟨id, h.mem_sweep.2 ⟨hid, hb'⟩⟩

end

theorem unchanged_collect (s : Buffers) (gc : List ℕ) : Unchanged s (s.collect gc) where
  fixed := rfl
  size := rfl
  live := rfl
  collected := fun _ hb => mem_append_right gc hb
  kept := fun _ he => he
  gone := fun _ he hn => absurd he hn

theorem Ok.collect (h : Ok page cap s pending) (gc : List ℕ) : Ok page cap (s.collect gc) pending :=
  { h with tracked := fun b hb => h.tracked b fun hmem => hb (mem_append_right gc hmem) }

theorem Ok.flags (h : Ok page cap s pending) (refused afterCallback : Bool) :
    Ok page cap { s with refused := refused, afterCallback := afterCallback } pending :=
  { h with }

theorem Ok.reserve (h : Ok page cap s 0) (hr : s.reserve len = some s') : Ok page cap s' len := by
  obtain ⟨rfl, hcap⟩ := reserve_eq_some hr
  refine { h with live := ?_, within := h.limit ▸ hcap }
  have hlive := h.live
  change s.live + len = s.fixedBytes + s.held + len
  omega

theorem Ok.release (h : Ok page cap s len) : Ok page cap (s.release len) 0 := by
  have hlive := h.live
  have hwithin := h.within
  rw [release_eq (by omega)]
  refine { h with live := ?_, within := ?_ }
  · change s.live - len = s.fixedBytes + s.held + 0
    omega
  · change s.live - len ≤ cap
    omega

/-! ## Fixed-length buffers -/

/-- **What a reservation with a sweep does.** -/
theorem Ok.reserveOrSweep (h : Ok page cap s 0) (len : ℕ) (hooked : Bool) :
    ∃ s1, Ok page cap s1 0 ∧ Unchanged s s1 ∧
      (((s.reserveOrSweep len hooked).2 = true ∧
          s1.reserve len = some (s.reserveOrSweep len hooked).1) ∨
        ((s.reserveOrSweep len hooked).2 = false ∧ (s.reserveOrSweep len hooked).1 = s1)) := by
  unfold Buffers.reserveOrSweep
  simp only
  have hflags : Unchanged s { s with refused := false, afterCallback := false } :=
    { Unchanged.refl s with }
  split
  next s2 hs2 =>
    exact ⟨_, h.flags false false, hflags, .inl ⟨rfl, hs2⟩⟩
  -- the table is swept if it can be borrowed, and the reservation made again
  · obtain ⟨s1, hs1, hok, hun⟩ : ∃ s1,
        (if hooked then ({ s with refused := false, afterCallback := false } : Buffers).sweep
          else { s with refused := false, afterCallback := false }) = s1 ∧
        Ok page cap s1 0 ∧ Unchanged s s1 := by
      cases hooked with
      | true =>
        have hok := h.flags false false
        exact ⟨_, rfl, hok.sweep, hflags.trans hok.unchanged_sweep⟩
      | false => exact ⟨_, rfl, h.flags false false, hflags⟩
    rw [hs1]
    split
    next s2 hs2 =>
      exact ⟨s1, hok, hun, .inl ⟨rfl, hs2⟩⟩
    · split
      · exact ⟨s1, hok, hun, .inr ⟨rfl, rfl⟩⟩
      · exact ⟨_, hok.flags true s1.afterCallback, hun.trans { Unchanged.refl s1 with },
          .inr ⟨rfl, rfl⟩⟩

theorem Unchanged.reserve_release {s1 s2 : Buffers} (h : Unchanged s s1)
    (hr : s1.reserve len = some s2) : Unchanged s (s2.release len) := by
  obtain ⟨rfl, -⟩ := reserve_eq_some hr
  rw [release_eq (Nat.le_add_left _ _)]
  refine { h with live := ?_ }
  have hlive := h.live
  change s1.live + len - len + s.held = s.live + s1.held
  omega

/-- **What an allocation keeps.** -/
theorem Ok.take (h : Ok page cap s 0) (len : ℕ) (hooked mapped : Bool) :
    Ok page cap (s.take len hooked mapped).1 0 ∧
      ((s.take len hooked mapped).2 = false → Unchanged s (s.take len hooked mapped).1) := by
  unfold Buffers.take
  split
  · obtain ⟨s1, hok, hun, ⟨htrue, hr⟩ | ⟨hfalse, hs1⟩⟩ := h.reserveOrSweep len hooked
    · simp only [htrue, if_true]
      have hok' := hok.reserve hr
      split
      -- the backing store is entered with the bytes that were reserved for it
      · refine ⟨{ hok' with live := ?_, stores := ?_ }, nofun⟩
        · have hfresh : (s.reserveOrSweep len hooked).1.fixed.get?
              (s.reserveOrSweep len hooked).1.nextStore = none := by
            rw [Dict.get?_eq_none_iff]
            exact fun v hv => absurd (hok'.stores _ hv) (lt_irrefl _)
          have hlive := hok'.live
          unfold fixedBytes held at hlive ⊢
          simp only [Dict.entries_set_of_get?_none hfresh, map_append, map_cons,
            map_nil, sum_append, sum_cons, sum_nil]
          omega
        · rintro ⟨store, n⟩ he
          rcases Dict.mem_set.1 he with ⟨rfl, -⟩ | ⟨-, hmem⟩
          · exact Nat.lt_succ_self _
          · exact Nat.lt_succ_of_lt (hok'.stores _ hmem)
      · exact ⟨hok'.release, fun _ => hun.reserve_release hr⟩
    · simp only [hfalse, Bool.false_eq_true, if_false]
      rw [hs1]
      exact ⟨hok, fun _ => hun⟩
  · exact ⟨h, fun _ => Unchanged.refl s⟩

/-- **What a free keeps.** -/
theorem Ok.free (h : Ok page cap s 0) (store : ℕ) : Ok page cap (s.free store) 0 := by
  unfold Buffers.free
  split
  next len hlen =>
    have hsum := Dict.sum_erase hlen Prod.snd
    have hlive := h.live
    have hwithin := h.within
    unfold fixedBytes at hlive
    simp only at hsum
    rw [release_eq (by omega)]
    refine { h with live := ?_, within := ?_, stores := ?_ }
    · unfold fixedBytes
      change s.live - len = _ + s.held + 0
      simp only
      omega
    · change s.live - len ≤ cap
      omega
    · exact fun e he => h.stores e (mem_filter.1 he).1
  · exact h

/-! ## Resizable buffers -/

theorem Ok.not_mem_of_known (h : Ok page cap s pending) (hknown : s.known b = none) (id n : ℕ) :
    (id, b, n) ∉ s.entries.entries := by
  intro hmem
  unfold known at hknown
  rw [h.tags hmem] at hknown
  simp [Dict.get?_of_mem hmem] at hknown

theorem Ok.mem_of_known (h : Ok page cap s pending) (hknown : s.known b = some id) :
    ∃ n, (id, b, n) ∈ s.entries.entries := by
  unfold known at hknown
  rw [Option.filter_eq_some_iff] at hknown
  obtain ⟨htag, hsome⟩ := hknown
  obtain ⟨⟨b', n⟩, hget⟩ := Option.isSome_iff_exists.1 hsome
  have hmem := Dict.mem_of_get? hget
  obtain rfl := h.owner htag (h.tags hmem)
  exact ⟨n, hmem⟩

theorem store_size (s : Buffers) (id bytes : ℕ) : (s.store id bytes).size = s.size := by
  unfold store
  split
  · rfl
  · split <;> rfl

/-- **What an entry holds once it is written**, with the budget's count set to
match. -/
theorem Ok.store {n v : ℕ} (h : Ok page cap s pending) (hmem : (id, b, current) ∈ s.entries.entries)
    (hv : v + current = s.fixedBytes + s.held + committedPages page n) (hcap : v ≤ cap) :
    Ok page cap
      { ({ s with live := v } : Buffers).store id (committedPages page n) with
        size := Function.update s.size b n } 0 := by
  have hget := Dict.get?_of_mem hmem
  -- another entry is of another buffer
  have hother : ∀ {id' b' n'}, (id', b', n') ∈ s.entries.entries → id' ≠ id → b' ≠ b := by
    rintro id' b' n' hmem' hne rfl
    exact hne (Option.some.inj ((h.tags hmem').symm.trans (h.tags hmem)))
  have hapart : ∀ {id' b' n'}, (id', b', n') ∈ s.entries.entries → b' ≠ b → id' ≠ id := by
    rintro id' b' n' hmem' hne rfl
    have := (Dict.get?_of_mem hmem').symm.trans hget
    simp only [Option.some.injEq, Prod.mk.injEq] at this
    exact hne this.1
  unfold Buffers.store
  split
  next hzero =>
    have hsum := Dict.sum_erase hget fun e => e.2.2
    have hkeep : ∀ {e}, e ∈ (s.entries.erase id).entries → e ∈ s.entries.entries ∧ e.1 ≠ id := by
      intro e he
      simpa [Dict.erase, Dict.filter] using he
    refine { h with live := ?_, within := hcap, tags := ?_, bytes := ?_, tracked := ?_ }
    · unfold fixedBytes held at hv ⊢
      simp only at hsum ⊢
      omega
    · exact fun he => h.tags (hkeep he).1
    · intro id' b' n' he
      obtain ⟨he, hne⟩ := hkeep he
      simp only [Function.update_of_ne (hother he hne)]
      exact h.bytes he
    · intro b' hb' hpos
      simp only [Function.update_apply] at hpos ⊢
      split at hpos
      · omega
      next hne =>
        simp only [hne, if_false]
        obtain ⟨id', hid'⟩ := h.tracked b' hb' hpos
        refine ⟨id', ?_⟩
        simpa [Dict.erase, Dict.filter] using ⟨hid', hapart hid' hne⟩
  · have hsum := Dict.sum_set hget (fun e => e.2.2) (b, committedPages page n)
    simp only [hget]
    refine { h with live := ?_, within := hcap, tags := ?_, bytes := ?_, tracked := ?_ }
    · unfold fixedBytes held at hv ⊢
      simp only at hsum ⊢
      omega
    · intro id' b' n' he
      rcases Dict.mem_set.1 he with ⟨rfl, heq⟩ | ⟨-, he⟩
      · cases heq
        exact h.tags hmem
      · exact h.tags he
    · intro id' b' n' he
      rcases Dict.mem_set.1 he with ⟨rfl, heq⟩ | ⟨hne, he⟩
      · cases heq
        simp only [Function.update_self]
      · simp only [Function.update_of_ne (hother he hne)]
        exact h.bytes he
    · intro b' hb' hpos
      simp only [Function.update_apply] at hpos ⊢
      split at hpos
      next heq =>
        simp only [heq, if_true]
        exact ⟨id, Dict.mem_set.2 (.inl ⟨rfl, rfl⟩)⟩
      next hne =>
        simp only [hne, if_false]
        obtain ⟨id', hid'⟩ := h.tracked b' hb' hpos
        exact ⟨id', Dict.mem_set.2 (.inr ⟨hapart hid' hne, hid'⟩)⟩

theorem le_held (hmem : (id, b, current) ∈ s.entries.entries) : current ≤ s.held := by
  have hsum := Dict.sum_erase (Dict.get?_of_mem hmem) fun e => e.2.2
  unfold held
  simp only at hsum
  omega

/-- **What the charge of a tracked buffer keeps.** -/
theorem Ok.setBytes {n : ℕ} (h : Ok page cap s 0)
    (hmem : (id, b, current) ∈ s.entries.entries) (hb : b ∉ s.collected) (hgc : b ∉ gc) :
    ((s.setBytes id (committedPages page n) gc).2 = true →
      Ok page cap
        { (s.setBytes id (committedPages page n) gc).1 with
          size := Function.update (s.setBytes id (committedPages page n) gc).1.size b n } 0) ∧
      ((s.setBytes id (committedPages page n) gc).2 = false →
        (s.setBytes id (committedPages page n) gc).1 = (s.collect gc).sweep) := by
  have hswept := (h.collect gc).sweep
  have hkept : (id, b, current) ∈ (s.collect gc).sweep.entries.entries :=
    (h.collect gc).mem_sweep.2 ⟨hmem, by simp [Buffers.collect, hb, hgc]⟩
  -- a growth that is granted is entered
  have hgrow : ∀ {s1 s2 : Buffers}, Ok page cap s1 0 → (id, b, current) ∈ s1.entries.entries →
      current < committedPages page n →
      s1.reserve (committedPages page n - current) = some s2 →
      Ok page cap
        { s2.store id (committedPages page n) with
          size := Function.update (s2.store id (committedPages page n)).size b n } 0 := by
    intro s1 s2 hok hin hlt hr
    obtain ⟨rfl, hcap⟩ := reserve_eq_some hr
    have hlive := hok.live
    have hstored := hok.store hin (n := n)
      (v := s1.live + (committedPages page n - current)) (by omega) (hok.limit ▸ hcap)
    rw [store_size]
    exact hstored
  unfold Buffers.setBytes
  simp only [Dict.get?_of_mem hmem, Option.elim_some]
  split
  next hlt =>
    split
    next s2 hr =>
      exact ⟨fun _ => hgrow h hmem hlt hr, by simp⟩
    · split
      next s2 hr =>
        exact ⟨fun _ => hgrow hswept hkept hlt hr, by simp⟩
      · exact ⟨by simp, fun _ => rfl⟩
  -- a shrink gives back what the entry no longer holds
  · have hlive := h.live
    have hheld := le_held hmem
    have hwithin := h.within
    refine ⟨fun _ => ?_, by simp⟩
    rw [release_eq (by omega), store_size]
    exact h.store hmem (by omega) (by omega)

/-! ## The first charge -/

/-- What a sweep may change, with `gc` collected before it. -/
structure Swept (page : ℕ+) (cap : ℕ) (gc : List ℕ) (s s' : Buffers) : Prop where
  ok : Ok page cap s' 0
  unchanged : Unchanged s s'
  nextId : s'.nextId = s.nextId
  collected : ∀ b ∈ s'.collected, b ∈ gc ∨ b ∈ s.collected

theorem Swept.refl (h : Ok page cap s 0) (gc : List ℕ) : Swept page cap gc s s :=
  ⟨h, .refl s, rfl, fun _ hb => .inr hb⟩

theorem Swept.trans {s'' : Buffers} (h : Swept page cap gc s s') (h' : Swept page cap gc s' s'') :
    Swept page cap gc s s'' where
  ok := h'.ok
  unchanged := h.unchanged.trans h'.unchanged
  nextId := h'.nextId.trans h.nextId
  collected := fun b hb => (h'.collected b hb).elim .inl (h.collected b)

theorem Ok.swept (h : Ok page cap s 0) (gc : List ℕ) : Swept page cap gc s s.sweep where
  ok := h.sweep
  unchanged := h.unchanged_sweep
  nextId := by rw [h.sweep_eq.1]
  collected := fun b hb => by
    rw [h.sweep_eq.1] at hb
    exact .inr hb

theorem Ok.swept_collect (h : Ok page cap s 0) (gc : List ℕ) :
    Swept page cap gc s (s.collect gc).sweep where
  ok := (h.collect gc).sweep
  unchanged := (unchanged_collect s gc).trans (h.collect gc).unchanged_sweep
  nextId := by
    rw [(h.collect gc).sweep_eq.1]
    rfl
  collected := fun b hb => by
    rw [(h.collect gc).sweep_eq.1] at hb
    exact mem_append.1 hb

theorem Ok.makeRoom (h : Ok page cap s 0) (gc : List ℕ) : Swept page cap gc s (s.makeRoom gc).1 := by
  unfold Buffers.makeRoom
  have hfirst : Swept page cap gc s (if s.sweepAt ≤ s.entries.entries.length then s.sweep else s) := by
    split
    · exact h.swept gc
    · exact .refl h gc
  simp only
  generalize (if s.sweepAt ≤ s.entries.entries.length then s.sweep else s) = s1 at hfirst ⊢
  split
  · exact hfirst.trans (hfirst.ok.swept_collect gc)
  · exact hfirst

theorem Ok.entries_track (h : Ok page cap s pending) (b : ℕ) :
    (s.track b).entries.entries = s.entries.entries ++ [(s.nextId + 1, b, 0)] := by
  have hget : s.entries.get? (s.nextId + 1) = none := by
    rw [Dict.get?_eq_none_iff]
    rintro ⟨b', n⟩ hmem
    have := h.ids (h.tags hmem)
    omega
  exact Dict.entries_set_of_get?_none hget _

theorem Ok.held_track (h : Ok page cap s pending) (b : ℕ) : (s.track b).held = s.held := by
  unfold held
  rw [h.entries_track b]
  simp

/-- **A buffer that is entered holds nothing.** -/
theorem Ok.track (h : Ok page cap s 0) (hb : b ∉ s.collected)
    (hnew : ∀ id n, (id, b, n) ∉ s.entries.entries) : Ok page cap (s.track b) 0 := by
  have hzero : committedPages page (s.size b) = 0 := by
    by_contra hne
    obtain ⟨id, hid⟩ := h.tracked b hb (Nat.pos_of_ne_zero hne)
    exact hnew id _ hid
  have hentries := h.entries_track b
  have hmem : ∀ {id b' n}, (id, b', n) ∈ (s.track b).entries.entries →
      (id = s.nextId + 1 ∧ b' = b ∧ n = 0) ∨ ((id, b', n) ∈ s.entries.entries ∧ b' ≠ b) := by
    intro id b' n hin
    rw [hentries, mem_append, mem_singleton, Prod.mk.injEq, Prod.mk.injEq] at hin
    rcases hin with hold | heq
    · refine .inr ⟨hold, ?_⟩
      rintro rfl
      exact hnew _ _ hold
    · exact .inl heq
  refine { h with live := ?_, tags := ?_, ids := ?_, owner := ?_, bytes := ?_, tracked := ?_ }
  · rw [h.held_track b]
    exact h.live
  · intro id b' n hin
    simp only [Buffers.track, Function.update_apply]
    rcases hmem hin with ⟨rfl, rfl, -⟩ | ⟨hold, hne⟩
    · rw [if_pos rfl]
    · rw [if_neg hne]
      exact h.tags hold
  · intro b' id htag
    simp only [Buffers.track, Function.update_apply] at htag ⊢
    split at htag
    · cases htag
      exact le_rfl
    · exact Nat.le_succ_of_le (h.ids htag)
  · intro b1 b2 id h1 h2
    simp only [Buffers.track, Function.update_apply] at h1 h2
    split at h1 <;> split at h2
    · simp_all
    · have := h.ids h2
      cases h1
      omega
    · have := h.ids h1
      cases h2
      omega
    · exact h.owner h1 h2
  · intro id b' n hin
    rcases hmem hin with ⟨-, rfl, rfl⟩ | ⟨hold, -⟩
    · exact hzero.symm
    · exact h.bytes hold
  · intro b' hb' hpos
    obtain ⟨id, hid⟩ := h.tracked b' hb' hpos
    refine ⟨id, ?_⟩
    rw [hentries]
    exact mem_append_left _ hid

theorem mem_track_self (s : Buffers) (b : ℕ) : (s.nextId + 1, b, 0) ∈ (s.track b).entries.entries :=
  Dict.mem_set.2 (.inl ⟨rfl, rfl⟩)

/-- **A refused first charge** leaves the new entry. -/
theorem Swept.not_unchanged_track {gc' : List ℕ} {s1 : Buffers} (h : Ok page cap s 0)
    (hs1 : Swept page cap gc s s1) (hs' : Swept page cap gc' (s1.track b) s')
    (hb : b ∉ s'.collected) : ¬ Unchanged s s' := by
  intro hun
  have hnew : (s1.nextId + 1, b, 0) ∈ s'.entries.entries := by
    by_contra hn
    exact hb (hs'.unchanged.gone _ (mem_track_self s1 b) hn)
  have hle := h.ids (h.tags (hun.kept _ hnew))
  rw [hs1.nextId] at hle
  omega

/-- **And nothing else.** -/
theorem Swept.unchanged_erase {gc' : List ℕ} {s1 : Buffers}
    (hs1 : Swept page cap gc s s1) (hs' : Swept page cap gc' (s1.track b) s')
    (hb : b ∉ s'.collected) :
    Unchanged s { s' with entries := s'.entries.erase s'.nextId } := by
  have hid : s'.nextId = s1.nextId + 1 := hs'.nextId
  have hnew : (s'.nextId, b, 0) ∈ s'.entries.entries := by
    rw [hid]
    by_contra hn
    exact hb (hs'.unchanged.gone _ (mem_track_self s1 b) hn)
  have hmem : ∀ e, e ∈ (s'.entries.erase s'.nextId).entries ↔
      e ∈ s'.entries.entries ∧ e.1 ≠ s'.nextId := fun e => by
    simp [Dict.erase, Dict.filter]
  have hsum := Dict.sum_erase (Dict.get?_of_mem hnew) fun e => e.2.2
  have hold : ∀ e ∈ s1.entries.entries, e.1 ≠ s'.nextId := by
    rintro ⟨id, b', n⟩ he heq
    have hle := hs1.ok.ids (hs1.ok.tags he)
    simp only at heq
    omega
  have htrack : ∀ e, e ∈ (s1.track b).entries.entries ∧ e.1 ≠ s'.nextId ↔
      e ∈ s1.entries.entries := by
    intro e
    rw [hs1.ok.entries_track b, mem_append, mem_singleton]
    constructor
    · rintro ⟨he | rfl, hne⟩
      · exact he
      · exact absurd hid.symm hne
    · exact fun he => ⟨.inl he, hold e he⟩
  have hheld := hs1.ok.held_track b
  refine
    { fixed := hs'.unchanged.fixed.trans hs1.unchanged.fixed
      size := hs'.unchanged.size.trans hs1.unchanged.size
      live := ?_
      collected := fun b hb => hs'.unchanged.collected b (hs1.unchanged.collected b hb)
      kept := fun e he => ?_
      gone := fun e he hn => ?_ }
  · have h1 := hs1.unchanged.live
    have h' := hs'.unchanged.live
    have hlive : (s1.track b).live = s1.live := rfl
    unfold held at h' h1 hheld ⊢
    simp only at hsum ⊢
    omega
  · obtain ⟨he', hne⟩ := (hmem e).1 he
    exact hs1.unchanged.kept e ((htrack e).1 ⟨hs'.unchanged.kept e he', hne⟩)
  · by_cases he1 : e ∈ s1.entries.entries
    · obtain ⟨het, hne⟩ := (htrack e).2 he1
      exact hs'.unchanged.gone e het fun he' => hn ((hmem e).2 ⟨he', hne⟩)
    · exact hs'.unchanged.collected _ (hs1.unchanged.gone e he he1)

/-! ## A charge -/

/-- **The first charge of a buffer**, past the bound on the table. -/
def FirstCharge (s : Buffers) (b : ℕ) (raw : Raw) (gc : List ℕ) : Prop :=
  byteCount raw ≠ none ∧ s.known b = none ∧ (s.makeRoom gc).2 = false

instance (s : Buffers) (b : ℕ) (raw : Raw) (gc : List ℕ) : Decidable (s.FirstCharge b raw gc) :=
  inferInstanceAs (Decidable (_ ∧ _ ∧ _))

/-- What a charge of an entered buffer comes to. -/
theorem Ok.granted {n : ℕ} (h : Ok page cap s 0)
    (hmem : (id, b, current) ∈ s.entries.entries) (hb : b ∉ s.collected) (hgc : b ∉ gc) :
    Ok page cap (granted b n (s.setBytes id (committedPages page n) gc)).1 0 ∧
      ((granted b n (s.setBytes id (committedPages page n) gc)).2 = false →
        Swept page cap gc s (granted b n (s.setBytes id (committedPages page n) gc)).1) := by
  obtain ⟨htrue, hfalse⟩ := h.setBytes (n := n) hmem hb hgc
  unfold Buffers.granted
  cases hr : (s.setBytes id (committedPages page n) gc).2 with
  | true =>
    rw [if_pos rfl]
    exact ⟨htrue hr, nofun⟩
  | false =>
    rw [if_neg Bool.false_ne_true, hfalse hr]
    exact ⟨(h.swept_collect gc).ok, fun _ => h.swept_collect gc⟩

/-- **What a charge keeps.** -/
theorem Ok.charge {raw : Raw} {gc' : List ℕ} (h : Ok page cap s 0)
    (hb : b ∉ s.collected) (hgc : b ∉ gc) (hgc' : b ∉ gc') :
    Ok page cap (s.charge page b raw gc gc').1 0 ∧
      ((s.charge page b raw gc gc').2 = false →
        (Unchanged s (s.charge page b raw gc gc').1 ↔ ¬ s.FirstCharge b raw gc) ∧
        (s.FirstCharge b raw gc →
          Unchanged s
            { (s.charge page b raw gc gc').1 with
              entries := (s.charge page b raw gc gc').1.entries.erase
                (s.charge page b raw gc gc').1.nextId })) := by
  unfold Buffers.charge FirstCharge
  cases hbytes : byteCount raw with
  | none => exact ⟨h, fun _ => ⟨by simp [Unchanged.refl], fun hf => absurd rfl hf.1⟩⟩
  | some n =>
    cases hknown : s.known b with
    | some id =>
      obtain ⟨current, hmem⟩ := h.mem_of_known hknown
      obtain ⟨hok, hrefused⟩ := h.granted (n := n) hmem hb hgc'
      refine ⟨hok, fun hf => ⟨?_, fun hfirst => absurd hfirst.2.1 (Option.some_ne_none _)⟩⟩
      simpa using (hrefused hf).unchanged
    | none =>
      have hroom := h.makeRoom gc
      simp only
      cases hfull : (s.makeRoom gc).2 with
      | true =>
        rw [if_pos rfl]
        refine ⟨hroom.ok, fun _ => ⟨?_, fun hfirst => nomatch hfirst.2.2⟩⟩
        simpa [Buffers.granted] using hroom.unchanged
      | false =>
        rw [if_neg Bool.false_ne_true]
        have hb1 : b ∉ (s.makeRoom gc).1.collected := fun hmem =>
          (hroom.collected b hmem).elim hgc hb
        have hnew : ∀ id n, (id, b, n) ∉ (s.makeRoom gc).1.entries.entries := fun id n hmem =>
          h.not_mem_of_known hknown id n (hroom.unchanged.kept _ hmem)
        have htrack := hroom.ok.track hb1 hnew
        obtain ⟨hok, hrefused⟩ := htrack.granted (n := n) (mem_track_self _ b) hb1 hgc'
        refine ⟨hok, fun hf => ?_⟩
        have hswept := hrefused hf
        have hb' := fun hmem => (hswept.collected b hmem).elim hgc' hb1
        refine ⟨?_, fun _ => hroom.unchanged_erase hswept hb'⟩
        simpa using hroom.not_unchanged_track h hswept hb'

end

end Buffers

/-! ## Runs -/

/-- The first charge of a buffer. -/
def Event.First (s : Buffers) : Event → Prop
  | .charge b raw gc _ => s.FirstCharge b raw gc
  | _ => False

/-- **What every event keeps.** -/
theorem Buffers.Ok.apply {page : ℕ+} {cap : ℕ} {s : Buffers} (h : Ok page cap s 0) {event : Event}
    (hvalid : event.Valid s) :
    Ok page cap (s.apply page event).1 0 ∧
      ((s.apply page event).2 = false → (Unchanged s (s.apply page event).1 ↔ ¬ event.First s) ∧
        (event.First s →
          Unchanged s
            { (s.apply page event).1 with
              entries := (s.apply page event).1.entries.erase (s.apply page event).1.nextId })) := by
  cases event with
  | allocate len hooked mapped =>
    obtain ⟨hok, hrefused⟩ := h.take len hooked mapped
    exact ⟨hok, fun hf => ⟨⟨fun _ hfirst => hfirst, fun _ => hrefused hf⟩, fun hfirst => hfirst.elim⟩⟩
  | free store => exact ⟨h.free store, nofun⟩
  | charge b raw gc gc' => exact h.charge hvalid.1 hvalid.2.1 hvalid.2.2
  | collect buffers => exact ⟨h.collect buffers, nofun⟩
  | sweep => exact ⟨h.sweep, nofun⟩
  | takeRefusal => exact ⟨h.flags _ _, nofun⟩

/-- **The books are in order in every state of a run.** -/
theorem Charged.ok {page : ℕ+} {cap : ℕ} {s : Buffers} (h : Charged page cap s) :
    Ok page cap s 0 := by
  induction h with
  | new => exact ok_new cap
  | apply _ event hvalid ih => exact (ih.apply hvalid).1

/-- **The live count is what is committed**: the bytes of the live backing stores
and the pages of the sizes of the tracked buffers, each buffer once and every
live one that holds bytes among them. -/
structure Accounted (page : ℕ+) (cap : ℕ) (s : Buffers) : Prop where
  live : s.live =
    s.fixedBytes + (s.entries.entries.map fun e => committedPages page (s.size e.2.1)).sum
  distinct : (s.entries.entries.map fun e => e.2.1).Nodup
  tracked : ∀ b ∉ s.collected, 0 < s.size b → ∃ id n, (id, b, n) ∈ s.entries.entries
  within : s.live ≤ cap
  unsaturated : s.saturated = false

theorem committedPages_pos (page : ℕ+) {n : ℕ} (h : 0 < n) : 0 < committedPages page n := by
  unfold committedPages
  rw [if_neg (by omega)]
  have hpage := page.pos
  have hdiv : 0 < (n + page - 1) / page := Nat.div_pos (by omega) hpage
  have hmul : 0 < (n + page - 1) / page * page := Nat.mul_pos hdiv hpage
  have hmax : 0 < usizeMax := by decide
  omega

theorem Buffers.Ok.accounted {page : ℕ+} {cap : ℕ} {s : Buffers} (h : Ok page cap s 0) :
    Accounted page cap s where
  live := by
    have hsame : (s.entries.entries.map fun e => committedPages page (s.size e.2.1)) =
        s.entries.entries.map fun e => e.2.2 :=
      map_congr_left fun e he => (h.bytes he).symm
    rw [hsame]
    exact h.live
  distinct := by
    -- the buffers are apart because their ids are
    refine List.Nodup.of_map s.tag ?_
    have hsame : ((s.entries.entries.map fun e => e.2.1).map fun b => s.tag b) =
        (s.entries.entries.map Prod.fst).map some := by
      rw [map_map, map_map]
      exact map_congr_left fun e he => h.tags he
    rw [hsame]
    exact s.entries.nodup.map (Option.some_injective ℕ)
  tracked := fun b hb hpos =>
    let ⟨id, hid⟩ := h.tracked b hb (committedPages_pos page hpos)
    ⟨id, _, hid⟩
  within := h.within
  unsaturated := h.unsaturated

/-- **The buffer budget.** In every state of a run the live count is what is
committed, within the cap, and no release has saturated. A refusal leaves the
books as they are but for entries of collected buffers exactly when it is not of
a buffer's first charge; there it leaves one more entry, of a buffer that holds
nothing. -/
theorem buffer_accounting (page : ℕ+) (cap : ℕ) (s : Buffers) (h : Charged page cap s) :
    Accounted page cap s ∧
      ∀ event, event.Valid s → (s.apply page event).2 = false →
        (Unchanged s (s.apply page event).1 ↔ ¬ event.First s) ∧
        (event.First s →
          Unchanged s
            { (s.apply page event).1 with
              entries := (s.apply page event).1.entries.erase (s.apply page event).1.nextId }) :=
  ⟨h.ok.accounted, fun _ hvalid => (h.ok.apply hvalid).2⟩

/-- Two pages of two are charged, and the next byte is refused. -/
def chargedState : Buffers :=
  ((Buffers.new 8192).apply 4096 (.charge 1 (.finite 5000) [] [])).1

theorem buffer_accounting_refused :
    chargedState.live = 8192 ∧
      Unchanged chargedState (chargedState.apply 4096 (.allocate 1 true true)).1 := by
  have hrun : Charged 4096 8192 chargedState :=
    .apply .new _ ⟨not_mem_nil, not_mem_nil, not_mem_nil⟩
  have hrefused : (chargedState.apply 4096 (.allocate 1 true true)).2 = false := by
    decide +kernel
  refine ⟨by decide +kernel, ?_⟩
  exact ((buffer_accounting 4096 8192 chargedState hrun).2 (.allocate 1 true true) trivial
    hrefused).1.2 fun hfirst => hfirst

/-- **A buffer that holds nothing stays in the table** after its first charge was
refused. -/
theorem unchanged_fails :
    ∃ (page : ℕ+) (cap : ℕ) (s : Buffers) (event : Event), Charged page cap s ∧ event.Valid s ∧
      (s.apply page event).2 = false ∧ (s.apply page event).1.collected = [] ∧
      s.entries.entries = [] ∧ (s.apply page event).1.entries.entries = [(1, 1, 0)] ∧
      ¬ Unchanged s (s.apply page event).1 := by
  have hentries : ((Buffers.new 4096).apply 4096
      (.charge 1 (.finite 8192) [] [])).1.entries.entries = [(1, 1, 0)] := by decide +kernel
  refine ⟨4096, 4096, .new 4096, .charge 1 (.finite 8192) [] [], .new,
    ⟨not_mem_nil, not_mem_nil, not_mem_nil⟩, by decide +kernel, by decide +kernel,
    rfl, hentries, fun hun => ?_⟩
  have hnew := hun.kept (1, 1, 0) (by rw [hentries]; exact mem_cons_self)
  exact not_mem_nil hnew

end Pydeno.Runtime
