import Pydeno.Sessions.Helpers.Store
/-!
# What a drop relies on

A `drop` is called at a time, by the pool's clock, and so does a lease begin.
Once a drop is past the entry it replaced, whatever is still to be stored was
dumped by a lease that began after the drop was called: the write of an older
lease is either over, or its entry was dropped and the drop has waited for it.
Then it deletes the journal, and from there on the journal in the store is a
later one (`DropPhase`).

What the entries do meanwhile is the same for every step (`Frame`): locks are
taken at the present time, an entry is dropped at the present time and as it
leaves the map, and a write begins only on an entry in the map.
-/

namespace Pydeno.Sessions

open Pool List

/-! ## The invariant -/

/-- No drop that has returned was called after time `n`. -/
def Pool.After (P : Pool) (n : ℕ) : Prop := ∀ d ∈ P.drops, d.called ≤ n

theorem after_congr {P P' : Pool} (h : P'.drops = P.drops) (n : ℕ) : P'.After n ↔ P.After n := by
  unfold After
  rw [h]

/-- **The pool's invariant**, as far as drops go. -/
structure DropOk (P : Pool) : Prop where
  opened : P.closed = false
  current : ∀ e, P.current = some e → (P.entries e).gone = false
  dropped : ∀ e, (P.entries e).dropped = true → (P.entries e).droppedAt < P.clock
  called : ∀ d ∈ P.drops, d.called < P.clock
  journal : ∀ o i j, P.journal = some (.journal o i j) → P.After j.lease
  sandbox : ∀ e s j, (P.entries e).gone = false → (P.entries e).sandbox = some s →
    s.origin = some j → P.After j.lease
  leases : ∀ e n, (P.entries e).lock = some n → (P.entries e).gone = false → P.After n
  returned : ∀ r ∈ P.returned, ∀ j, r.sandbox.origin = some j → ∀ d ∈ r.drops, d.called ≤ j.lease
  deleted : ∀ x ∈ P.deleted, ∀ d ∈ x.drops, d.called < x.droppedAt

theorem DropOk.notAllGone {P : Pool} (hO : DropOk P) : ¬AllGone P := not_allGone hO.opened

/-- A drop called at time `m` has its barrier or a later one in the map, or has
returned, or a later one has. -/
def Pool.Stands (P : Pool) (m : ℕ) : Prop :=
  (∃ b m', P.current = some b ∧ (P.entries b).gone = false ∧
    (P.entries b).barrier = true ∧ (P.entries b).lock = some m' ∧ m ≤ m') ∨
  ∃ d ∈ P.drops, m ≤ d.called

/-- The drop has deleted the journal. -/
def Dropping.deleted : Dropping → Bool
  | .setsCounter _ => true
  | .counterSet => true
  | _ => false

/-- **What a drop that was called at time `m` relies on.** -/
structure DropPhase (P : Pool) (m : ℕ) (old : Option ℕ) (p : Dropping) : Prop where
  /-- Whoever has a lease on an entry that was in the map after the call began
  it after the call. -/
  locks : ∀ e n, (P.entries e).lock = some n →
    ((P.entries e).gone = false ∨
      ((P.entries e).dropped = true ∧ m < (P.entries e).droppedAt)) → m ≤ n
  /-- What was dropped before is quiet. -/
  quiets : ∀ e, (P.entries e).dropped = true → (P.entries e).droppedAt ≤ m →
    old = some e ∨ (P.entries e).quiet = true
  replaced : ∀ e, old = some e → (P.entries e).dropped = true
  passed : p.passed = true → ∀ e, old = some e → (P.entries e).quiet = true
  deleted : p.deleted = true → ∀ o i j, P.journal = some (.journal o i j) → m ≤ j.lease
  stands : P.Stands m

/-- The journal that `_restore` has read. -/
def Preparing.read : Preparing → Option Journal
  | .gotJournal _ (some (.journal _ _ j)) => some j
  | .loads _ _ _ j => some j
  | _ => none

/-- The journal is not stored yet. -/
def Writing.early : Writing → Bool
  | .readsCounter _ => true
  | .gotCounter _ _ => true
  | .dumps _ => true
  | .closesSpent _ => true
  | .setsJournal _ _ => true
  | _ => false

/-- **A task's invariant**, as far as drops go. -/
structure DropTask (P : Pool) (c : Task) : Prop where
  read : ∀ e n p j, c = .prepares e n p → p.read = some j → (P.entries e).gone = false →
    P.After j.lease
  early : ∀ who e n s w, c = .writes who e n s w → w.early = true → P.After n
  late : ∀ e, c.writesOn = some e → (P.entries e).dropped = true →
    ∀ d ∈ P.drops, d.called < (P.entries e).droppedAt
  deletes : ∀ who e n s spent, c = .writes who e n s (.deletesJournal spent) →
    (P.entries e).dropped = true
  drop : ∀ b m old p, c = .drops b m old p → DropPhase P m old p

/-- What a drop that is past the entry it replaced knows of a write. -/
def Precedes (c d : Task) : Prop :=
  ∀ b m old p who e n s w, c = .drops b m old p → p.passed = true → d = .writes who e n s w →
    w.early = true → m ≤ n

/-- What holds between two tasks, as far as drops go. -/
def DropsApart (c d : Task) : Prop := Precedes c d ∧ Precedes d c

theorem DropsApart.symm {c d : Task} (h : DropsApart c d) : DropsApart d c := ⟨h.2, h.1⟩

/-! ## What every step does to the entries -/

/-- **What every step does to the entries.** -/
structure Frame (P P' : Pool) : Prop where
  clock : P.clock ≤ P'.clock
  nextEntry : P.nextEntry ≤ P'.nextEntry
  gone : ∀ e, e < P.nextEntry → (P.entries e).gone = true → (P'.entries e).gone = true
  /-- An entry is dropped as it leaves the map. -/
  dropped : ∀ e, (P'.entries e).dropped = true →
    ((P.entries e).dropped = true ∧ (P'.entries e).droppedAt = (P.entries e).droppedAt) ∨
    ((e < P.nextEntry → (P.entries e).gone = false) ∧ P.clock ≤ (P'.entries e).droppedAt)
  stays : ∀ e, e < P.nextEntry → (P.entries e).dropped = true →
    (P'.entries e).dropped = true ∧ (P'.entries e).droppedAt = (P.entries e).droppedAt
  locks : ∀ e n, (P'.entries e).lock = some n → P.clock ≤ n ∨ (P.entries e).lock = some n
  quiet : ∀ e, e < P.nextEntry → (P.entries e).dropped = true →
    (P.entries e).quiet = true → (P'.entries e).quiet = true

section

variable {rules : Rules} {owner session : List ℕ} {e n : ℕ} {made : Sandbox → Prop}
variable {P P' pool'' : Pool} {c c' d : Task}

/-- An entry that was made is in the map only if it was. -/
theorem Frame.live (h : Frame P P') (he : e < P.nextEntry)
    (hlive : (P'.entries e).gone = false) : (P.entries e).gone = false := by
  by_contra hg
  rw [h.gone e he (by simpa using hg)] at hlive
  simp at hlive

theorem Frame.trans (h : Frame P P') (h' : Frame P' pool'') : Frame P pool'' where
  clock := h.clock.trans h'.clock
  nextEntry := h.nextEntry.trans h'.nextEntry
  gone e he hg := h'.gone e (he.trans_le h.nextEntry) (h.gone e he hg)
  dropped e hd := by
    rcases h'.dropped e hd with ⟨h1, h2⟩ | ⟨h1, h2⟩
    · rcases h.dropped e h1 with ⟨h3, h4⟩ | ⟨h3, h4⟩
      · exact .inl ⟨h3, h2.trans h4⟩
      · exact .inr ⟨h3, h2 ▸ h4⟩
    · exact .inr ⟨fun he => h.live he (h1 (he.trans_le h.nextEntry)), h.clock.trans h2⟩
  stays e he hd := by
    obtain ⟨h1, h2⟩ := h.stays e he hd
    obtain ⟨h3, h4⟩ := h'.stays e (he.trans_le h.nextEntry) h1
    exact ⟨h3, h4.trans h2⟩
  locks e n hl := by
    rcases h'.locks e n hl with h1 | h1
    · exact .inl (h.clock.trans h1)
    · exact h.locks e n h1
  quiet e he hd hq :=
    h'.quiet e (he.trans_le h.nextEntry) (h.stays e he hd).1 (h.quiet e he hd hq)

/-- A step that leaves the entries alone. -/
theorem Later.frame (h : Later P P') : Frame P P' where
  clock := h.clock
  nextEntry := h.nextEntry.ge
  gone e _ hg := by
    rw [h.entries]
    exact hg
  dropped e hd := .inl (by rw [h.entries] at hd ⊢; exact ⟨hd, rfl⟩)
  stays e _ hd := by
    rw [h.entries]
    exact ⟨hd, rfl⟩
  locks e n hl := .inr (by rw [← h.entries]; exact hl)
  quiet e _ _ hq := by
    rw [h.entries]
    exact hq

/-- A lock that is held after a step on one entry was held before it. -/
theorem Local.lock_old (h : Local e P P') {e' : ℕ}
    (hl : (P'.entries e').lock = some n) : (P.entries e').lock = some n := by
  by_cases he : e' = e
  · subst he
    rcases h.lock with h1 | h1
    · exact h1 ▸ hl
    · simp [h1] at hl
  · exact h.others e' he ▸ hl

/-- A step on one entry. -/
theorem Local.frame (h : Local e P P')
    (hquiet : (P.entries e).dropped = true → (P.entries e).quiet = true →
      (P'.entries e).quiet = true) : Frame P P' where
  clock := h.clock.ge
  nextEntry := h.nextEntry.ge
  gone e' _ hg := h.gone_mono hg
  dropped e' hd := .inl ⟨(h.flags e').1.symm.trans hd, (h.flags e').2⟩
  stays e' _ hd := ⟨(h.flags e').1.trans hd, (h.flags e').2⟩
  locks e' n hl := .inr (h.lock_old hl)
  quiet e' _ hd hq := by
    by_cases he : e' = e
    · subst he
      exact hquiet hd hq
    · rw [h.others e' he]
      exact hq

/-- **A step of a lease**: a write begins only on an entry in the map. -/
theorem Own.frame (h : Own e n P c P' c') (hI : PoolOk P) (hP : TaskOk P c) (hO : DropOk P) :
    Frame P P' := by
  refine h.toLocal.frame fun hd hq => ?_
  have hnot : c.writesOn ≠ some e := fun hw => by
    cases hq.symm.trans ((hP.stored e hw).resolve_left hO.notAllGone).1
  rcases h.writesOn with ⟨-, hsame | hw⟩ | ⟨-, ⟨-, hlive⟩ | ⟨hw, -⟩⟩
  · exact hsame.trans hq
  · exact absurd hw hnot
  · nomatch hlive.symm.trans (h.gone (hI.dropped e hd))
  · exact absurd hw hnot

theorem acquire_frame : Frame P (P.acquire e) where
  clock := Nat.le_succ _
  nextEntry := le_rfl
  gone e' _ hg := by
    rw [acquire_entry]
    exact hg
  dropped e' hd := by
    rw [acquire_entry] at hd ⊢
    exact .inl ⟨hd, rfl⟩
  stays e' _ hd := by
    rw [acquire_entry]
    exact ⟨hd, rfl⟩
  locks e' n hl := (acquire_locks hl).imp ge_of_eq id
  quiet e' _ _ hq := by
    rw [acquire_entry]
    exact hq

theorem add_frame : Frame P (P.add .new) where
  clock := le_rfl
  nextEntry := Nat.le_succ _
  gone e he hg := by
    rw [add_other he.ne]
    exact hg
  dropped e hd := by
    left
    have hold := add_entry_of (F := (·.dropped = true)) hd
    rw [hold] at hd ⊢
    exact ⟨hd, rfl⟩
  stays e he hd := by
    rw [add_other he.ne]
    exact ⟨hd, rfl⟩
  locks e n hl := by
    have hold := add_entry_of (F := (·.lock = some n)) hl
    rw [hold] at hl
    exact .inr hl
  quiet e he _ hq := by
    rw [add_other he.ne]
    exact hq

theorem barricade_frame (hI : PoolOk P) (hO : DropOk P) : Frame P P.barricade where
  clock := Nat.le_succ _
  nextEntry := by
    rw [barricade_next]
    exact Nat.le_succ _
  gone e he hg := by
    by_cases hold : P.current = some e
    · rw [barricade_old he.ne hold]
    · rw [barricade_other he.ne hold]
      exact hg
  dropped e hd := by
    by_cases he : e = P.nextEntry
    · rw [he, barricade_self] at hd
      simp at hd
    · by_cases hold : P.current = some e
      · rw [barricade_old he hold]
        exact .inr ⟨fun _ => hO.current e hold, le_rfl⟩
      · rw [barricade_other he hold] at hd ⊢
        exact .inl ⟨hd, rfl⟩
  stays e he hd := by
    -- what is in the map is not gone, so it was not dropped
    have hold : P.current ≠ some e := fun hold =>
      nomatch (hO.current e hold).symm.trans (hI.dropped e hd)
    rw [barricade_other he.ne hold]
    exact ⟨hd, rfl⟩
  locks e n hl := by
    by_cases he : e = P.nextEntry
    · rw [he, barricade_self] at hl
      obtain rfl : P.clock = n := by simpa using hl
      exact .inl le_rfl
    · exact .inr ((barricade_keeps he).1 ▸ hl)
  quiet e he _ hq := (barricade_keeps he.ne).2.1.trans hq

/-! ## What stands in the map -/

theorem Later.stands (h : Later P P') (hdrops : P'.drops = P.drops) {m : ℕ}
    (hm : P.Stands m) : P'.Stands m := by
  unfold Stands
  rw [h.entries, h.current, hdrops]
  exact hm

/-- A step on an entry that is no barrier in the map. -/
theorem Local.stands (h : Local e P P')
    (hbare : (P.entries e).barrier = true → (P.entries e).gone = false →
      (P.entries e).lock = none) {m : ℕ} (hm : P.Stands m) : P'.Stands m := by
  rcases hm with ⟨b, m', hb, hlive, hbarrier, hlock, hle⟩ | hd
  · have hne : b ≠ e := by
      rintro rfl
      simp [hbare hbarrier hlive] at hlock
    refine .inl ⟨b, m', ?_, ?_, ?_, ?_, hle⟩
    · rcases h.current with h1 | ⟨h1, -, -⟩
      · exact h1.trans hb
      · exact absurd (by simpa using hb.symm.trans h1) hne
    all_goals rw [h.others b hne]; assumption
  · exact .inr (h.drops ▸ hd)

theorem acquire_stands (hfree : (P.entries e).lock = none) {m : ℕ} (hm : P.Stands m) :
    (P.acquire e).Stands m := by
  rcases hm with ⟨b, m', hb, hlive, hbarrier, hlock, hle⟩ | hd
  · have hne : b ≠ e := by
      rintro rfl
      simp [hfree] at hlock
    refine .inl ⟨b, m', hb, ?_, ?_, ?_, hle⟩
    all_goals rw [acquire_other hne]; assumption
  · exact .inr hd

theorem add_stands (hnone : P.current = none) {m : ℕ} (hm : P.Stands m) :
    (P.add .new).Stands m := by
  rcases hm with ⟨b, m', hb, -⟩ | hd
  · simp [hnone] at hb
  · exact .inr hd

/-- A barrier stands for every drop before it. -/
theorem barricade_stands {m : ℕ} (hm : m ≤ P.clock) : P.barricade.Stands m := by
  refine .inl ⟨P.nextEntry, P.clock, barricade_current, ?_, ?_, ?_, hm⟩
  all_goals simp [barricade_self]

/-! ## The other tasks -/

theorem PoolOk.born_of_dropped (hI : PoolOk P) (hd : (P.entries e).dropped = true) :
    e < P.nextEntry := by
  by_contra h
  rw [hI.unborn e (by omega)] at hd
  simp at hd

/-- **A drop goes on relying on what it did.** -/
theorem DropPhase.frame {m : ℕ} {old : Option ℕ} {p : Dropping} (hD : DropPhase P m old p)
    (h : Frame P P') (hI : PoolOk P) (hm : m < P.clock)
    (hjournal : p.deleted = true → ∀ o i j, P'.journal = some (.journal o i j) →
      P.journal = some (.journal o i j) ∨ m ≤ j.lease)
    (hstands : P'.Stands m) : DropPhase P' m old p where
  locks e n hlock hin := by
    rcases h.locks e n hlock with hn | hlock'
    · omega
    · have he := hI.born hlock'
      refine hD.locks e n hlock' ?_
      rcases hin with hlive | ⟨hd, hat⟩
      · exact .inl (h.live he hlive)
      · rcases h.dropped e hd with ⟨h1, h2⟩ | ⟨h1, -⟩
        · exact .inr ⟨h1, h2 ▸ hat⟩
        · exact .inl (h1 he)
  quiets e hd hat := by
    rcases h.dropped e hd with ⟨h1, h2⟩ | ⟨-, h2⟩
    · exact (hD.quiets e h1 (h2 ▸ hat)).imp id (h.quiet e (hI.born_of_dropped h1) h1)
    · omega
  replaced e he := (h.stays e (hI.born_of_dropped (hD.replaced e he)) (hD.replaced e he)).1
  passed hp e he :=
    h.quiet e (hI.born_of_dropped (hD.replaced e he)) (hD.replaced e he) (hD.passed hp e he)
  deleted hp o i j hj := (hjournal hp o i j hj).elim (hD.deleted hp o i j) id
  stands := hstands

/-- **What the other tasks rely on**, when drops may have returned. -/
theorem Frame.dropTask_of (h : Frame P P')
    (hstands : ∀ m, m < P.clock → P.Stands m → P'.Stands m) (hI : PoolOk P)
    (hd : TaskOk P d) (hcalled : ∀ x ∈ P'.drops, x.called < P.clock)
    (hread : ∀ e n p j, d = .prepares e n p → p.read = some j → (P.entries e).gone = false →
      P'.After j.lease)
    (hearly : ∀ who e n s w, d = .writes who e n s w → w.early = true → P'.After n)
    (hlate : ∀ e, d.writesOn = some e → (P.entries e).dropped = true →
      ∀ x ∈ P'.drops, x.called < (P.entries e).droppedAt)
    (hjournal : ∀ b m old p, d = .drops b m old p → p.deleted = true → ∀ o i j,
      P'.journal = some (.journal o i j) → P.journal = some (.journal o i j) ∨ m ≤ j.lease)
    (hT : DropTask P d) : DropTask P' d where
  read e n p j hd' hp hlive := by
    have he := hI.born (hd.holds e n (by rw [hd']; rfl))
    exact hread e n p j hd' hp (h.live he hlive)
  early := hearly
  late e hw hdropped x hx := by
    rcases h.dropped e hdropped with ⟨h1, h2⟩ | ⟨-, h2⟩
    · rw [h2]
      exact hlate e hw h1 x hx
    · exact (hcalled x hx).trans_le h2
  deletes who e n s spent hd' := by
    have hdropped := hT.deletes who e n s spent hd'
    exact (h.stays e (hI.born_of_dropped hdropped) hdropped).1
  drop b m old p hd' := by
    have hm := hI.stamped b m (hd.holds b m (by rw [hd']; rfl))
    have hD := hT.drop b m old p hd'
    exact hD.frame h hI hm (hjournal b m old p hd') (hstands m hm hD.stands)

/-- **A step without a drop that returns** keeps what the other tasks rely
on. -/
theorem Frame.dropTask (h : Frame P P') (hdrops : P'.drops = P.drops)
    (hstands : ∀ m, m < P.clock → P.Stands m → P'.Stands m) (hI : PoolOk P)
    (hO : DropOk P) (hd : TaskOk P d)
    (hjournal : ∀ b m old p, d = .drops b m old p → p.deleted = true → ∀ o i j,
      P'.journal = some (.journal o i j) → P.journal = some (.journal o i j) ∨ m ≤ j.lease)
    (hT : DropTask P d) : DropTask P' d := by
  have hafter := after_congr hdrops
  refine h.dropTask_of hstands hI hd ?_ ?_ ?_ ?_ hjournal hT
  · rw [hdrops]
    exact hO.called
  · exact fun e n p j hd' hp hlive => (hafter _).2 (hT.read e n p j hd' hp hlive)
  · exact fun who e n s w hd' hw => (hafter _).2 (hT.early who e n s w hd' hw)
  · rw [hdrops]
    exact hT.late

/-! ## A step of a lease -/

/-- **What a step of a lease does**, beside its entry: what it restores, stores
and returns is from after every drop that has returned. -/
structure Works (e : ℕ) (P P' : Pool) : Prop extends Local e P P' where
  sandbox : ∀ s, (P'.entries e).sandbox = some s → (P'.entries e).gone = false →
    (P.entries e).sandbox = some s ∨ ∀ j, s.origin = some j → P.After j.lease
  journal : ∀ o i j, P'.journal = some (.journal o i j) →
    P.journal = some (.journal o i j) ∨ P.After j.lease
  returned : ∀ r ∈ P'.returned, r ∈ P.returned ∨
    (r.drops = P.drops ∧ ∀ j, r.sandbox.origin = some j → P.After j.lease)
  deleted : ∀ x ∈ P'.deleted, x ∈ P.deleted ∨
    (x.drops = P.drops ∧ ∀ d ∈ P.drops, d.called < x.droppedAt)

theorem Local.live (h : Local e P P') {e' : ℕ} (hlive : (P'.entries e').gone = false) :
    (P.entries e').gone = false := by
  by_contra hg
  rw [h.gone_mono (by simpa using hg)] at hlive
  simp at hlive

theorem Works.dropOk (h : Works e P P') (hO : DropOk P) : DropOk P' := by
  have hafter n := (after_congr h.drops n).2
  refine ⟨h.closed.trans hO.opened, ?_, ?_, ?_, ?_, ?_, ?_, ?_, ?_⟩
  · intro e' hcurrent
    have hsame : P'.current = P.current := by
      rcases h.current with h1 | ⟨-, h1, -⟩
      · exact h1
      · simp [h1] at hcurrent
    have hlive := hO.current e' (hsame ▸ hcurrent)
    by_cases he : e' = e
    · subst he
      by_contra hg
      rcases h.forgotten (by simpa using hg) with h1 | h1
      · simp [hlive] at h1
      · exact h1 hcurrent
    · rw [h.others e' he]
      exact hlive
  · intro e' hd
    obtain ⟨hdropped, hat⟩ := h.toLocal.flags e'
    rw [h.clock, hat]
    exact hO.dropped e' (hdropped ▸ hd)
  · rw [h.drops, h.clock]
    exact hO.called
  · exact fun o i j hj => hafter _ ((h.journal o i j hj).elim (hO.journal o i j) id)
  · intro e' s j hlive hs hj
    have hlive' := h.toLocal.live hlive
    by_cases he : e' = e
    · subst he
      rcases h.sandbox s hs hlive with h1 | h1
      · exact hafter _ (hO.sandbox e' s j hlive' h1 hj)
      · exact hafter _ (h1 j hj)
    · rw [h.others e' he] at hs
      exact hafter _ (hO.sandbox e' s j hlive' hs hj)
  · exact fun e' n hlock hlive =>
      hafter n (hO.leases e' n (h.toLocal.lock_old hlock) (h.toLocal.live hlive))
  · intro r hr j hj
    rcases h.returned r hr with h1 | ⟨h1, h2⟩
    · exact hO.returned r h1 j hj
    · rw [h1]
      exact h2 j hj
  · intro x hx
    rcases h.deleted x hx with h1 | ⟨h1, h2⟩
    · exact hO.deleted x h1
    · rw [h1]
      exact h2

/-- **A piece of a step**: it returns what is in the entry. -/
theorem Piece.works (h : Piece e n made P (P', c')) (hO : DropOk P)
    (hmade : ∀ s, made s → (P.entries e).gone = false → ∀ j, s.origin = some j →
      P.After j.lease) : Works e P P' := by
  refine { h.toLocal with sandbox := ?_, journal := ?_, returned := ?_, deleted := ?_ }
  · exact fun s hs hlive => (h.sandbox s hs).imp id fun hm => hmade s hm (h.toLocal.live hlive)
  · exact fun o i j hj => .inl (h.journal ▸ hj)
  · intro r hr
    rcases h.returned with h1 | ⟨s, hc, h1⟩
    · exact .inl (h1 ▸ hr)
    · rw [h1] at hr
      refine (mem_append.1 hr).imp id fun hr => ?_
      obtain rfl := mem_singleton.1 hr
      refine ⟨rfl, fun j hj => ?_⟩
      obtain ⟨hs, hlive⟩ := h.session s (by rw [hc]; rfl)
      have hlive' := h.toLocal.live hlive
      rcases h.sandbox s hs with h2 | h2
      · exact hO.sandbox e s j hlive' h2 hj
      · exact hmade s h2 hlive' j hj
  · exact fun x hx => .inl (h.deleted ▸ hx)

/-- A write to the entry that leaves the store alone and makes no sandbox. -/
theorem Tame.works (h : Tame e makesNone P P') (hreturned : P'.returned = P.returned) :
    Works e P P' :=
  { h.toLocal with
    sandbox := fun s hs _ => .inl ((h.sandbox s hs).resolve_right id)
    journal := fun _ _ _ hj => .inl (h.journal ▸ hj)
    returned := fun _ hr => .inl (hreturned ▸ hr)
    deleted := fun _ hx => .inl (h.deleted ▸ hx) }

theorem Task.Free.dropTask (h : c.Free) : DropTask P c where
  read e n p j hc := by
    have := h.holds
    simp [hc, Task.holds] at this
  early who e n s w hc := by
    have := h.writesOn
    simp [hc] at this
  late e hw := nomatch h.writesOn.symm.trans hw
  deletes who e n s spent hc := by
    have := h.writesOn
    simp [hc] at this
  drop b m old p hc := by
    have := h.holds
    simp [hc, Task.holds] at this

/-- **What a piece leaves a task with**: nothing read, and if a write begins,
its lease is on the entry in the map. -/
theorem Piece.dropTask (h : Piece e n made P (P', c')) (hblank : c'.Blank P') (hI : PoolOk P')
    (hO : DropOk P') (hlock : (P.entries e).lock = some n) : DropTask P' c' := by
  have hof : c'.Of e n := h.of
  have hstart : c'.writesOn = some e → (P'.entries e).gone = false ∧ P'.After n := by
    intro hw
    rcases h.writesOn with ⟨h1, -⟩ | ⟨-, -, hlive⟩
    · cases h1.symm.trans hw
    · refine ⟨hlive, ?_⟩
      rcases h.holds with ⟨-, h1⟩ | ⟨h1, -⟩
      · exact hO.leases e n (h1.trans hlock) hlive
      · cases hof <;> simp [Task.holds] at hw h1
  refine ⟨?_, ?_, ?_, ?_, ?_⟩
  · rintro e' n' p j rfl hp
    cases p <;> simp [Task.Blank, Preparing.read] at hblank hp
  · rintro who e' n' s w rfl hw
    obtain ⟨rfl, rfl⟩ : e' = e ∧ n' = n := by cases hof <;> exact ⟨rfl, rfl⟩
    exact (hstart rfl).2
  · intro e' hw hd
    obtain rfl : e' = e := by cases hof <;> simp_all [Task.writesOn]
    cases (hstart hw).1.symm.trans (hI.dropped e' hd)
  · rintro who e' n' s spent rfl
    exact absurd hblank (by simp [Task.Blank])
  · rintro b m old p rfl
    cases hof

/-! ## `_persist` -/

section

variable {s : Sandbox} {w w' : Writing} {who : Who} {out : Written}

section

variable (h : WriteStep rules owner session e n s P w P' out)
include h

/-- A write that goes on has its journal still to store only if it had, and
deletes the journal only of an entry that was dropped. -/
theorem WriteStep.goes (hout : out = .goes w') : (w'.early = true → w.early = true) ∧
      ∀ spent, w' = .deletesJournal spent → (P.entries e).dropped = true := by
  cases h with
  | journalSetLate hdropped | counterSetLate hdropped =>
    cases hout
    exact ⟨by simp [Writing.early], fun _ _ => hdropped⟩
  | counterSet | journalDeleted =>
    unfold wroteAll at hout
    split at hout <;> simp at hout
  | _ => cases hout <;> exact ⟨by simp [Writing.early], by simp⟩

/-- Only a write that had not stored its journal stores one, its lease's. -/
theorem WriteStep.journal {o i : List ℕ} {j : Journal} (hj : P'.journal = some (.journal o i j)) :
    P.journal = some (.journal o i j) ∨ (w.early = true ∧ j.lease = n) := by
  cases h with
  | setsJournal =>
    obtain ⟨-, -, rfl⟩ : owner = o ∧ session = i ∧ _ = j := by simpa using hj
    exact .inr ⟨rfl, rfl⟩
  | deletesJournal => simp at hj
  | counterSet | journalDeleted =>
    left
    unfold wroteAll at hj
    split at hj <;> exact hj
  | _ => exact .inl hj

theorem WriteStep.deleted {x : Deleted}
    (hx : x ∈ P'.deleted) : x ∈ P.deleted ∨ ((∃ spent, w = .deletesJournal spent) ∧
      x.droppedAt = (P.entries e).droppedAt ∧ x.drops = P.drops) := by
  cases h with
  | @deletesJournal spent =>
    refine (mem_append.1 hx).imp id fun hx => ?_
    obtain rfl := mem_singleton.1 hx
    exact ⟨⟨spent, rfl⟩, rfl, rfl⟩
  | counterSet | journalDeleted =>
    left
    unfold wroteAll at hx
    split at hx <;> exact hx
  | _ => exact .inl hx

/-- **A step of `_persist`.** -/
theorem WriteStep.works (hT : DropTask P (.writes who e n s w)) : Works e P P' := by
  have he := h.effect
  refine { he.toLocal with sandbox := ?_, journal := ?_, returned := ?_, deleted := ?_ }
  · intro s' hs' _
    rcases he.sandbox with h1 | h1
    · exact .inl (h1 ▸ hs')
    · simp [h1] at hs'
  · intro o i j hj
    refine (h.journal hj).imp id fun ⟨hw, hn⟩ => ?_
    rw [hn]
    exact hT.early who e n s w rfl hw
  · exact fun r hr => .inl (he.returned ▸ hr)
  · intro x hx
    refine (h.deleted hx).imp id fun ⟨⟨spent, hw⟩, hat, hdrops⟩ => ⟨hdrops, ?_⟩
    rw [hat]
    exact hT.late e rfl (hT.deletes who e n s spent (by rw [hw]))

end

/-- `_persist` goes on. -/
theorem WriteStep.dropTask (h : WriteStep rules owner session e n s P w P' (.goes w'))
    (hT : DropTask P (.writes who e n s w)) : DropTask P' (.writes who e n s w') := by
  have he := h.effect
  refine ⟨by simp, ?_, ?_, ?_, by simp⟩
  · intro who' e' n' s' w1 hc hw
    obtain ⟨rfl, rfl, rfl, rfl, rfl⟩ := Task.writes.inj hc
    exact (after_congr he.drops n).2 (hT.early who e n s w rfl ((h.goes rfl).1 hw))
  · intro e' hw hd
    obtain rfl : e = e' := by simpa using hw
    rw [he.drops, he.droppedAt]
    exact hT.late e rfl (he.dropped ▸ hd)
  · intro who' e' n' s' spent hc
    obtain ⟨rfl, rfl, rfl, rfl, rfl⟩ := Task.writes.inj hc
    rw [he.dropped]
    exact (h.goes rfl).2 spent rfl

end

/-! ## `_prepare` -/

theorem PrepareStep.works {p : Preparing} (h : PrepareStep owner session e n P p P' c')
    (hO : DropOk P) (hT : DropTask P (.prepares e n p)) : Works e P P' := by
  refine h.piece.works hO fun s hs hlive j hj => ?_
  rcases hs.2 with h1 | ⟨floor, o, i, j', rfl, h1⟩
  · simp [h1] at hj
  · obtain rfl : j' = j := by simpa using h1.symm.trans hj
    exact hT.read e n _ j' rfl rfl hlive

/-- `_prepare` goes on with what it has read. -/
theorem dropTask_prepares {p : Preparing}
    (hread : ∀ j, p.read = some j → (P.entries e).gone = false → P.After j.lease) :
    DropTask P (.prepares e n p) where
  read e' n' p1 j hc hj := by
    obtain ⟨rfl, rfl, rfl⟩ := Task.prepares.inj hc
    exact hread j hj
  early := by simp
  late := by simp
  deletes := by simp
  drop := by simp

/-- **A step of `_prepare`**: the journal it reads is from after every drop that
has returned. -/
theorem PrepareStep.dropTask {p : Preparing} (h : PrepareStep owner session e n P p P' c')
    (hO : DropOk P) (hI' : PoolOk P') (hO' : DropOk P') (hT : DropTask P (.prepares e n p))
    (hlock : (P.entries e).lock = some n) : DropTask P' c' := by
  have hpiece := h.piece
  cases h with
  | raises => exact free_ended.dropTask
  | checks | readsFloor => exact dropTask_prepares (by simp [Preparing.read])
  | checked => exact hpiece.dropTask leaves_afterCheck.blank hI' hO' hlock
  | @readsJournal floor =>
    refine dropTask_prepares fun j hj _ => ?_
    cases hv : P.journal with
    | none => simp [hv, Preparing.read] at hj
    | some v =>
      cases v with
      | journal o i j' =>
        obtain rfl : j' = j := by simpa [hv, Preparing.read] using hj
        exact hO.journal o i j' hv
      | text digits => simp [hv, Preparing.read] at hj
  | empty => exact hpiece.dropTask trivial hI' hO' hlock
  | opens => exact dropTask_prepares fun j hj hlive => hT.read e n _ j rfl hj hlive
  | created => exact hpiece.dropTask leaves_install.blank hI' hO' hlock
  | @loaded floor o i j _ =>
    refine hpiece.dropTask ?_ hI' hO' hlock
    simp only [restore]
    split <;> exact leaves_install.blank
  | discards => exact free_looks.dropTask

/-! ## A lease begins, a drop begins -/

theorem acquire_dropOk (hO : DropOk P) : DropOk (P.acquire e) where
  opened := hO.opened
  current e' he' := by
    rw [acquire_entry]
    exact hO.current e' he'
  dropped e' hd := by
    rw [acquire_entry] at hd ⊢
    exact (hO.dropped e' hd).trans (Nat.lt_succ_self _)
  called d hd := (hO.called d hd).trans (Nat.lt_succ_self _)
  journal := hO.journal
  sandbox e' s j hlive hs := by
    rw [acquire_entry] at hlive hs
    exact hO.sandbox e' s j hlive hs
  leases e' n hlock hlive := by
    rw [acquire_gone] at hlive
    rcases acquire_locks hlock with rfl | hlock
    · exact fun d hd => (hO.called d hd).le
    · exact hO.leases e' n hlock hlive
  returned := hO.returned
  deleted := hO.deleted

theorem add_dropOk (hO : DropOk P) : DropOk (P.add .new) where
  opened := hO.opened
  current e he := by
    obtain rfl : P.nextEntry = e := by simpa [add] using he
    rw [add_self]
    rfl
  dropped e hd := by
    have hold := add_entry_of (F := (·.dropped = true)) hd
    rw [hold] at hd ⊢
    exact hO.dropped e hd
  called := hO.called
  journal := hO.journal
  sandbox e s j hlive hs := by
    have hold := add_entry_of (F := (·.sandbox = some s)) hs
    rw [hold] at hlive hs
    exact hO.sandbox e s j hlive hs
  leases e n hlock hlive := by
    have hold := add_entry_of (F := (·.lock = some n)) hlock
    rw [hold] at hlock hlive
    exact hO.leases e n hlock hlive
  returned := hO.returned
  deleted := hO.deleted

theorem barricade_same (P : Pool) : P.barricade.journal = P.journal ∧ P.barricade.drops = P.drops ∧
    P.barricade.returned = P.returned ∧ P.barricade.deleted = P.deleted := by
  unfold barricade
  split <;> exact ⟨rfl, rfl, rfl, rfl⟩

theorem barricade_dropOk (hI : PoolOk P) (hO : DropOk P) : DropOk P.barricade := by
  obtain ⟨hjournal, hdrops, hreturned, hdeleted⟩ := barricade_same P
  have hclock : P.barricade.clock = P.clock + 1 := rfl
  have hafter := after_congr hdrops
  refine ⟨barricade_closed.trans hO.opened, ?_, ?_, ?_, ?_, ?_, ?_, ?_, ?_⟩
  · intro e he
    obtain rfl : P.nextEntry = e := by simpa using barricade_current.symm.trans he
    rw [barricade_self]
    rfl
  · intro e hd
    rw [hclock]
    by_cases he : e = P.nextEntry
    · rw [he, barricade_self] at hd
      simp at hd
    · by_cases hold : P.current = some e
      · rw [barricade_old he hold]
        exact Nat.lt_succ_self _
      · rw [barricade_other he hold] at hd ⊢
        exact (hO.dropped e hd).trans (Nat.lt_succ_self _)
  · rw [hdrops, hclock]
    exact fun d hd => (hO.called d hd).trans (Nat.lt_succ_self _)
  · intro o i j hj
    rw [hafter]
    exact hO.journal o i j (hjournal ▸ hj)
  · intro e s j hlive hs
    obtain rfl := barricade_live hI hlive
    rw [barricade_self] at hs
    simp at hs
  · intro e n hlock hlive
    obtain rfl := barricade_live hI hlive
    rw [barricade_self] at hlock
    obtain rfl : P.clock = n := by simpa using hlock
    rw [hafter]
    exact fun d hd => (hO.called d hd).le
  · rw [hreturned]
    exact hO.returned
  · rw [hdeleted]
    exact hO.deleted

/-- **A drop begins** while no write of a dropped entry is in progress. -/
theorem barricade_dropPhase {p : Dropping} (hI : PoolOk P) (hO : DropOk P)
    (hquiet : ∀ e, (P.entries e).dropped = true → (P.entries e).quiet = true)
    (hpassed : p.passed = false) (hdeleted : p.deleted = false) :
    DropPhase P.barricade P.clock P.current p where
  locks e n hlock hin := by
    rcases hin with hlive | ⟨hd, hat⟩
    · obtain rfl := barricade_live hI hlive
      rw [barricade_self] at hlock
      exact le_of_eq (by simpa using hlock)
    · -- nothing was dropped later than now
      have := (barricade_dropOk hI hO).dropped e hd
      rw [show P.barricade.clock = P.clock + 1 from rfl] at this
      omega
  quiets e hd _ := by
    by_cases hold : P.current = some e
    · exact .inl hold
    · right
      by_cases he : e = P.nextEntry
      · rw [he, barricade_self] at hd
        simp at hd
      · rw [barricade_other he hold] at hd ⊢
        exact hquiet e hd
  replaced e hold := by rw [barricade_old (hI.known e hold).ne hold]
  passed hp := by simp [hpassed] at hp
  deleted hp := by simp [hdeleted] at hp
  stands := barricade_stands le_rfl

theorem DropTask.of_phase {b m : ℕ} {old : Option ℕ} {p : Dropping} (hD : DropPhase P m old p) :
    DropTask P (.drops b m old p) where
  read := by simp
  early := by simp
  late := by simp
  deletes := by simp
  drop b' m' old' p' hc := by
    obtain ⟨-, rfl, rfl, rfl⟩ := Task.drops.inj hc
    exact hD

/-! ## A drop goes on -/

/-- The same pool, but for what the store has under its keys. -/
theorem DropOk.same (hO : DropOk P) (h : SameEntries P P') (hdeleted : P'.deleted = P.deleted)
    (hjournal : P'.journal = P.journal ∨ P'.journal = none) : DropOk P' := by
  have hafter := after_congr h.drops
  refine ⟨h.closed.trans hO.opened, ?_, ?_, ?_, ?_, ?_, ?_, ?_, ?_⟩
  · rw [h.entries, h.current]
    exact hO.current
  · rw [h.entries, h.clock]
    exact hO.dropped
  · rw [h.drops, h.clock]
    exact hO.called
  · intro o i j hj
    rw [hafter]
    rcases hjournal with h1 | h1
    · exact hO.journal o i j (h1 ▸ hj)
    · simp [h1] at hj
  · intro e s j hlive hs hj
    rw [h.entries] at hlive hs
    exact (hafter _).2 (hO.sandbox e s j hlive hs hj)
  · intro e n hlock hlive
    rw [h.entries] at hlock hlive
    exact (hafter _).2 (hO.leases e n hlock hlive)
  · rw [h.returned]
    exact hO.returned
  · rw [hdeleted]
    exact hO.deleted

section

variable {b m : ℕ} {old : Option ℕ} {p : Dropping}

/-- What is from after every drop that has returned, in an entry in the map, is
from after a drop that stands. -/
theorem Pool.Stands.le {k : ℕ} (hm : P.Stands m) (hI : PoolOk P)
    (hlive : (P.entries e).gone = false)
    (hbare : (P.entries e).barrier = true → (P.entries e).gone = true)
    (hk : P.After k) : m ≤ k := by
  rcases hm with ⟨b', m', hb, -, hbarrier, -⟩ | ⟨d, hd, hle⟩
  · obtain rfl : b' = e := by simpa using hb.symm.trans (hI.live e hlive)
    simp [hbare hbarrier] at hlive
  · exact hle.trans (hk d hd)

/-- The pool once a drop has returned. -/
def Pool.dropReturned (P : Pool) (b n : ℕ) : Pool :=
  { P.unbar b with drops := P.drops ++ [⟨n, P.clock⟩], clock := P.clock + 1 }

theorem after_dropReturned {k : ℕ} : (P.dropReturned b m).After k ↔ P.After k ∧ m ≤ k := by
  simp [After, dropReturned, or_imp, forall_and]

theorem unbar_gone : ((P.unbar b).entries b).gone = true := by
  simp [unbar]

theorem unbar_works : Works b P (P.unbar b) := tame_unbar.works rfl

/-- **A drop returns**: nothing in the store or in the map is from before it was
called. -/
theorem DropPhase.dropOk (hD : DropPhase P m old .counterSet) (hI : PoolOk P)
    (hO : DropOk P) (hm : m < P.clock) : DropOk (P.dropReturned b m) := by
  have hworks : Works b P (P.unbar b) := unbar_works
  have hU := hworks.dropOk hO
  refine ⟨hU.opened, hU.current, ?_, ?_, ?_, ?_, ?_, hU.returned, hU.deleted⟩
  · exact fun e hd => (hU.dropped e hd).trans (Nat.lt_succ_self _)
  · intro d hd
    rcases mem_append.1 hd with hd | hd
    · exact (hO.called d hd).trans (Nat.lt_succ_self _)
    · obtain rfl := mem_singleton.1 hd
      exact hm.trans (Nat.lt_succ_self _)
  · exact fun o i j hj => after_dropReturned.2 ⟨hO.journal o i j hj, hD.deleted rfl o i j hj⟩
  · intro e s j hlive hs hj
    have hlive' := hworks.toLocal.live hlive
    have hne : e ≠ b := fun he => by
      rw [he] at hlive
      nomatch hlive.symm.trans unbar_gone
    have hs' : (P.entries e).sandbox = some s := by
      rw [← hworks.others e hne]
      exact hs
    have hafter := hO.sandbox e s j hlive' hs' hj
    refine after_dropReturned.2 ⟨hafter, hD.stands.le hI hlive' (fun hb => ?_) hafter⟩
    simp [(hI.barred e hb hlive').1] at hs'
  · intro e n hlock hlive
    have hlive' := hworks.toLocal.live hlive
    have hlock' := hworks.toLocal.lock_old hlock
    exact after_dropReturned.2 ⟨hO.leases e n hlock' hlive', hD.locks e n hlock' (.inl hlive')⟩

/-- **A drop goes on or returns.** -/
theorem DropStep.dropOk (haborting : rules.aborting = false)
    (h : DropStep rules b m old P p P' c') (hI : PoolOk P)
    (hP : TaskOk P (.drops b m old p)) (hO : DropOk P)
    (hT : DropTask P (.drops b m old p)) : DropOk P' ∧ DropTask P' c' := by
  have hD := hT.drop b m old p rfl
  have hm := hI.stamped b m (hP.holds b m rfl)
  cases h with
  | closed => exact ⟨hO, .of_phase { hD with passed := nofun, deleted := nofun }⟩
  | quiet hquiet =>
    exact ⟨hO, .of_phase { hD with passed := fun _ => hquiet, deleted := nofun }⟩
  | reads | got =>
    exact ⟨hO, .of_phase { hD with passed := fun _ => hD.passed rfl, deleted := nofun }⟩
  | deletes =>
    refine ⟨hO.same ⟨rfl, rfl, rfl, rfl, rfl, rfl, rfl⟩ rfl (.inr rfl), .of_phase ?_⟩
    exact { hD with
      passed := fun _ => hD.passed rfl, deleted := by simp, stands := hD.stands }
  | setsCounter =>
    refine ⟨hO.same ⟨rfl, rfl, rfl, rfl, rfl, rfl, rfl⟩ rfl (.inl rfl), .of_phase ?_⟩
    exact { hD with
      passed := fun _ => hD.passed rfl, deleted := fun _ => hD.deleted rfl, stands := hD.stands }
  | returns => exact ⟨hD.dropOk hI hO hm, free_ended.dropTask⟩
  | aborts h => nomatch haborting.symm.trans h

/-- Two tasks of which the one stores nothing and is no drop that is past the
entry it replaced. -/
theorem dropsApart_of (hw : c.writesOn = none)
    (hp : ∀ b m old p, c = .drops b m old p → p.passed = false) : DropsApart c d := by
  refine ⟨?_, ?_⟩
  · intro b m old p who e n s w hc hpassed
    simp [hp b m old p hc] at hpassed
  · intro b m old p who e n s w _ _ hc
    simp [hc] at hw

theorem Task.Free.dropsApart (h : c.Free) : DropsApart c d := by
  refine dropsApart_of h.writesOn ?_
  rintro b m old p rfl
  have := h.holds
  simp [Task.holds] at this

/-- A write that a drop does not know of yet. -/
theorem Precedes.of_quiet (hO : DropOk P) (hd : TaskOk P d) (hD : DropPhase P m old .waitsQuiet)
    (hquiet : ∀ e, old = some e → (P.entries e).quiet = true) :
    Precedes (.drops b m old .readsCounter) d := by
  rintro b' m' old' p' who e n s w hc - rfl -
  obtain ⟨-, rfl, -, -⟩ := Task.drops.inj hc
  obtain ⟨hnot, hstored⟩ := (hd.stored e rfl).resolve_left hO.notAllGone
  obtain ⟨k, hk⟩ := (hd.writer rfl).resolve_right hO.notAllGone
  obtain rfl : n = k := by cases who <;> simp [Task.holds] at hk <;> exact hk
  have hlock := hd.holds e n hk
  rcases hstored with hlive | hdropped
  · exact hD.locks e n hlock (.inl hlive)
  · -- the drop has waited for every write of an entry that was dropped before
    by_cases hat : m < (P.entries e).droppedAt
    · exact hD.locks e n hlock (.inr ⟨hdropped, hat⟩)
    · rcases hD.quiets e hdropped (by omega) with hold | hq
      · cases (hquiet e hold).symm.trans hnot
      · cases hq.symm.trans hnot

/-- A drop that is past the entry it replaced stays so. -/
theorem Precedes.goes_on {p' : Dropping} (hR : Precedes (.drops b m old p) d)
    (hp : p.passed = true) : Precedes (.drops b m old p') d := by
  intro b' m' old' p1 who e n s w hc _ hd hw
  obtain ⟨rfl, rfl, rfl, -⟩ := Task.drops.inj hc
  exact hR b m old p who e n s w rfl hp hd hw

/-- **When a drop returns**, the other tasks go on relying on what they did. -/
theorem DropPhase.dropTask (hD : DropPhase P m old .counterSet) (hI : PoolOk P)
    (hO : DropOk P) (hP : TaskOk P (.drops b m old .counterSet)) (hd : TaskOk P d)
    (hR : DropsApart (.drops b m old .counterSet) d) (hT : DropTask P d) :
    DropTask (P.dropReturned b m) d := by
  have hlock := hP.holds b m rfl
  have hm := hI.stamped b m hlock
  have hworks : Works b P (P.unbar b) := unbar_works
  have hframe : Frame P (P.dropReturned b m) := by
    have hunbar : Frame P (P.unbar b) := hworks.toLocal.frame fun _ hq => by
      simpa [unbar] using hq
    have hlater : Later (P.unbar b) (P.dropReturned b m) :=
      ⟨rfl, rfl, rfl, Nat.le_succ _, id⟩
    exact hunbar.trans hlater.frame
  have hmem : ∀ x ∈ (P.dropReturned b m).drops, x ∈ P.drops ∨ x.called = m := by
    intro x hx
    refine (mem_append.1 hx).imp id fun hx => ?_
    rw [mem_singleton.1 hx]
  refine hframe.dropTask_of ?_ hI hd ?_ ?_ ?_ ?_ ?_ hT
  · -- the barrier leaves the map, and the drop has returned
    rintro k - (⟨b', k', hb, hlive, hbarrier, hlock', hle⟩ | ⟨x, hx, hle⟩)
    · by_cases hne : b' = b
      · subst hne
        obtain rfl : m = k' := by simpa using hlock.symm.trans hlock'
        exact .inr ⟨⟨m, P.clock⟩, by simp [dropReturned], hle⟩
      · have hcurrent : (P.unbar b).current = P.current := by
          rcases hworks.current with h1 | ⟨h1, -⟩
          · exact h1
          · exact absurd (by simpa using hb.symm.trans h1) hne
        have hsame : (P.dropReturned b m).entries b' = P.entries b' := hworks.others b' hne
        refine .inl ⟨b', k', hcurrent.trans hb, ?_, ?_, ?_, hle⟩
        all_goals rw [hsame]; assumption
    · exact .inr ⟨x, mem_append_left _ hx, hle⟩
  · intro x hx
    rcases hmem x hx with h1 | h1
    · exact hO.called x h1
    · rw [h1]
      exact hm
  · intro e n p j hd' hp hlive
    have hafter := hT.read e n p j hd' hp hlive
    refine after_dropReturned.2 ⟨hafter, hD.stands.le hI hlive (hd.bare e n ?_) hafter⟩
    rw [hd']
    rfl
  · exact fun who e n s w hd' hw => after_dropReturned.2
      ⟨hT.early who e n s w hd' hw, hR.1 b m old _ who e n s w rfl rfl hd' hw⟩
  · intro e hw hdropped x hx
    rcases hmem x hx with h1 | h1
    · exact hT.late e hw hdropped x h1
    · rw [h1]
      by_contra hat
      have hnot := ((hd.stored e hw).resolve_left hO.notAllGone).1
      rcases hD.quiets e hdropped (by omega) with hold | hq
      · cases (hD.passed rfl e hold).symm.trans hnot
      · cases hq.symm.trans hnot
  · exact fun _ _ _ _ _ _ _ _ _ hj => .inl hj

/-- **A step of a drop keeps what the other tasks rely on.** -/
theorem DropStep.dropOthers (haborting : rules.aborting = false)
    (h : DropStep rules b m old P p P' c') (hI : PoolOk P)
    (hP : TaskOk P (.drops b m old p)) (hO : DropOk P)
    (hT : DropTask P (.drops b m old p)) (hd : TaskOk P d) (hdT : DropTask P d)
    (hR : DropsApart (.drops b m old p) d) : DropTask P' d ∧ DropsApart c' d := by
  have hD := hT.drop b m old p rfl
  have hwrites : ∀ p', Precedes d (.drops b m old p') := by
    intro p' b' m' old' p1 who e n s w _ _ hc
    simp at hc
  -- a step that leaves the entries alone
  have hsame : ∀ {P' : Pool}, SameEntries P P' →
      (P'.journal = P.journal ∨ P'.journal = none) → DropTask P' d := by
    intro P' hs hj
    refine hs.later.frame.dropTask hs.drops ?_ hI hO hd ?_ hdT
    · exact fun _ _ => hs.later.stands hs.drops
    · intro _ _ _ _ _ _ o i j hj'
      rcases hj with h1 | h1
      · exact .inl (h1 ▸ hj')
      · simp [h1] at hj'
  cases h with
  | closed => exact ⟨hdT, dropsApart_of rfl fun _ _ _ _ hc => (Task.drops.inj hc).2.2.2 ▸ rfl⟩
  | quiet hquiet => exact ⟨hdT, Precedes.of_quiet hO hd hD hquiet, hwrites _⟩
  | reads | got => exact ⟨hdT, hR.1.goes_on rfl, hwrites _⟩
  | deletes =>
    exact ⟨hsame ⟨rfl, rfl, rfl, rfl, rfl, rfl, rfl⟩ (.inr rfl), hR.1.goes_on rfl, hwrites _⟩
  | setsCounter =>
    exact ⟨hsame ⟨rfl, rfl, rfl, rfl, rfl, rfl, rfl⟩ (.inl rfl), hR.1.goes_on rfl, hwrites _⟩
  | returns => exact ⟨hD.dropTask hI hO hP hd hR hdT, free_ended.dropsApart⟩
  | aborts h => nomatch haborting.symm.trans h

end

end

end Pydeno.Sessions
