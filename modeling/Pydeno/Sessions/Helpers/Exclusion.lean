import Pydeno.Sessions.Helpers.Locks
/-!
# Who may do what

What holds in runs where every lease is ended by its own release: a task that
has a lease holds the lock of its entry, an entry that is not gone is the one
in the map, nobody has a lease on a barrier there, and what is stored is not
quiet. Of the entries of a pool that is being closed (`AllGone`) the last is not
said. Each kind of step keeps all of it, for the task that moves and for every
other one (`Keeps`); a step that is made of two keeps it because both do.
-/

namespace Pydeno.Sessions

/-! ## The invariant -/

/-- Every entry is gone: the pool is being closed. -/
def AllGone (P : Pool) : Prop := P.closed = true ∧ ∀ e, (P.entries e).gone = true

theorem not_allGone {P : Pool} (hopen : P.closed = false) : ¬AllGone P := fun hall => by
  cases hopen.symm.trans hall.1

/-- **The pool's invariant.** -/
structure PoolOk (P : Pool) : Prop where
  home : Home P
  unborn : ∀ e, P.nextEntry ≤ e → P.entries e = .blank
  live : ∀ e, (P.entries e).gone = false → P.current = some e
  known : ∀ e, P.current = some e → e < P.nextEntry
  stamped : ∀ e n, (P.entries e).lock = some n → n < P.clock
  dropped : ∀ e, (P.entries e).dropped = true → (P.entries e).gone = true
  barred : ∀ e, (P.entries e).barrier = true → (P.entries e).gone = false →
    (P.entries e).sandbox = none ∧ (P.entries e).lock ≠ none

/-- The entry and the lease a task works on. -/
def Task.works : Task → Option (ℕ × ℕ)
  | .drops _ _ _ _ => none
  | c => c.holds

theorem Task.holds_of_works {c : Task} {k : ℕ × ℕ} (h : c.works = some k) : c.holds = some k := by
  cases c <;> simp_all [works]

theorem Task.works_writes {who : Who} (hwho : who = .release ∨ who = .prepare) (e n : ℕ)
    (s : Sandbox) (w : Writing) : (Task.writes who e n s w).works = some (e, n) := by
  rcases hwho with rfl | rfl <;> rfl

/-- The entry that `close` is storing or clearing. -/
def Task.closes : Task → Option ℕ
  | .closeWaits e _ => some e
  | .closeClears e => some e
  | .writes .close e _ _ _ => some e
  | _ => none

/-- **A task's invariant.** -/
structure TaskOk (P : Pool) (c : Task) : Prop where
  home : c.Home
  holds : ∀ e n, c.holds = some (e, n) → (P.entries e).lock = some n
  bare : ∀ e n, c.works = some (e, n) → (P.entries e).barrier = true → (P.entries e).gone = true
  leased : ∀ e n s, c = .leased e n s → (P.entries e).gone = false → (P.entries e).sandbox = some s
  notStray : ∀ e n s w, c ≠ .writes .stray e n s w
  /-- What is stored is not quiet, and in the map or dropped. -/
  stored : ∀ e, c.writesOn = some e → AllGone P ∨ ((P.entries e).quiet = false ∧
    ((P.entries e).gone = false ∨ (P.entries e).dropped = true))
  closes : ∀ e, c.closes = some e → AllGone P ∧ e < P.nextEntry
  marks : c = .closeMarks → P.closed = true
  waits : ∀ e, c = .waits e → e < P.nextEntry

/-- **A step keeps the invariants**, and those of every other task. -/
structure Keeps (P : Pool) (c : Task) (P' : Pool) (c' : Task) : Prop where
  poolOk : PoolOk P'
  taskOk : TaskOk P' c'
  others : ∀ d, TaskOk P d → StampsApart c d → TaskOk P' d ∧ StampsApart c' d

section

variable {rules : Rules} {owner session : List ℕ} {e n : ℕ}
variable {P P' pool'' : Pool} {c c' c'' d : Task}

theorem Keeps.trans (h : Keeps P c P' c') (h' : Keeps P' c' pool'' c'') : Keeps P c pool'' c'' :=
  ⟨h'.poolOk, h'.taskOk, fun d hd hR =>
    have ⟨hd', hR'⟩ := h.others d hd hR
    h'.others d hd' hR'⟩

theorem StampsApart.symm (h : StampsApart c d) : StampsApart d c :=
  fun e n e' n' hd hc => (h e' n' e n hc hd).symm

/-- Two tasks have no lease on the same entry. -/
theorem StampsApart.entry_ne {n' : ℕ} (h : StampsApart c d) (hc : TaskOk P c) (hd : TaskOk P d)
    (hce : c.holds = some (e, n)) : d.holds ≠ some (e, n') := by
  intro hde
  have hlock := (hc.holds e n hce).symm.trans (hd.holds e n' hde)
  obtain rfl : n = n' := by simpa using hlock
  exact h e n e n hce hde rfl

/-- A task that stores an entry has its lease, or closes the pool. -/
theorem TaskOk.writer (hc : TaskOk P c) (h : c.writesOn = some e) :
    (∃ n, c.holds = some (e, n)) ∨ AllGone P := by
  cases c with
  | writes who e' n s w =>
    obtain rfl : e' = e := by simpa using h
    cases who with
    | release => exact .inl ⟨n, rfl⟩
    | prepare => exact .inl ⟨n, rfl⟩
    | stray => exact absurd rfl (hc.notStray e' n s w)
    | close => exact .inr (hc.closes e' rfl).1
  | _ => simp at h

/-! ## Steps of a lease -/

theorem Task.Of.closes (h : c.Of e n) : c.closes = none := by
  cases h <;> rfl

theorem Task.Of.notStray (h : c.Of e n) : ∀ e' n' s w, c ≠ .writes .stray e' n' s w := by
  cases h <;> simp

theorem Local.allGone (h : Local e P P') (hall : AllGone P) : AllGone P' := by
  refine ⟨h.closed.trans hall.1, fun e' => ?_⟩
  by_cases he : e' = e
  · subst he
    exact h.gone (hall.2 _)
  · rw [h.others e' he]
    exact hall.2 e'

/-- The map and the heap after a step on one entry. -/
theorem Local.poolOk (h : Local e P P') (hI : PoolOk P) (hborn : e < P.nextEntry)
    (hhome : Home P') (hbare : (P.entries e).barrier = true → (P'.entries e).gone = true) :
    PoolOk P' where
  home := hhome
  unborn := by
    intro e' he'
    rw [h.nextEntry] at he'
    rw [h.others e' (by omega)]
    exact hI.unborn e' he'
  live := by
    intro e' hlive
    have hold : (P.entries e').gone = false := by
      by_cases he : e' = e
      · subst he
        by_contra hgone
        rw [h.gone (by simpa using hgone)] at hlive
        simp at hlive
      · rw [← h.others e' he]
        exact hlive
    have hcurrent := hI.live e' hold
    rcases h.current with h1 | ⟨h1, -, hgone⟩
    · rw [h1]
      exact hcurrent
    · obtain rfl : e' = e := by simpa using hcurrent.symm.trans h1
      rw [hgone] at hlive
      simp at hlive
  known := by
    intro e' hcurrent
    rw [h.nextEntry]
    rcases h.current with h1 | ⟨-, h1, -⟩
    · exact hI.known e' (h1 ▸ hcurrent)
    · rw [h1] at hcurrent
      simp at hcurrent
  stamped := by
    intro e' n' hlock
    rw [h.clock]
    rcases h.locks e' with h1 | h1
    · exact hI.stamped e' n' (h1 ▸ hlock)
    · simp [h1] at hlock
  dropped := by
    intro e' hd
    by_cases he : e' = e
    · subst he
      exact h.gone (hI.dropped e' (h.dropped ▸ hd))
    · rw [h.others e' he] at hd ⊢
      exact hI.dropped e' hd
  barred := by
    intro e' hb hlive
    by_cases he : e' = e
    · subst he
      cases hlive.symm.trans (hbare (h.barrier ▸ hb))
    · rw [h.others e' he] at hb hlive ⊢
      exact hI.barred e' hb hlive

/-- An entry whose lock is held has been made. -/
theorem PoolOk.born (hI : PoolOk P) (hlock : (P.entries e).lock = some n) : e < P.nextEntry := by
  by_contra h
  rw [hI.unborn e (by omega)] at hlock
  simp at hlock

/-- **What a task's invariant needs of a step** by another: the locks it holds,
what its lease has in the map, and the entry it stores. -/
theorem TaskOk.mono (hd : TaskOk P d)
    (hholds : ∀ e n, d.holds = some (e, n) → (P'.entries e).lock = (P.entries e).lock ∧
      (P'.entries e).barrier = (P.entries e).barrier ∧
      ((P'.entries e).gone = false → (P.entries e).gone = false ∧
        (P'.entries e).sandbox = (P.entries e).sandbox))
    (hwrites : ∀ e, d.writesOn = some e → (P.entries e).quiet = false →
      (P.entries e).gone = false ∨ (P.entries e).dropped = true →
      AllGone P' ∨ ((P'.entries e).quiet = false ∧
        ((P'.entries e).gone = false ∨ (P'.entries e).dropped = true)))
    (hall : AllGone P → AllGone P') (hclosed : P.closed = true → P'.closed = true)
    (hnext : P.nextEntry ≤ P'.nextEntry) : TaskOk P' d where
  home := hd.home
  holds e n hd' := (hholds e n hd').1.trans (hd.holds e n hd')
  bare e n hd' hb := by
    obtain ⟨-, hbarrier, hlive⟩ := hholds e n (Task.holds_of_works hd')
    by_contra hgone
    cases (hlive (by simpa using hgone)).1.symm.trans (hd.bare e n hd' (hbarrier ▸ hb))
  leased e n s hd' hlive := by
    obtain ⟨hold, hsame⟩ := (hholds e n (by rw [hd']; rfl)).2.2 hlive
    exact hsame.trans (hd.leased e n s hd' hold)
  notStray := hd.notStray
  stored e hd' := (hd.stored e hd').elim (.inl ∘ hall) fun h => hwrites e hd' h.1 h.2
  closes e hd' := ⟨hall (hd.closes e hd').1, (hd.closes e hd').2.trans_le hnext⟩
  marks hd' := hclosed (hd.marks hd')
  waits e hd' := (hd.waits e hd').trans_le hnext

/-- **A step on an entry that another task does not work on** keeps that
task's invariant. -/
theorem Local.taskOk (h : Local e P P') (hd : TaskOk P d) (hholds : ∀ n, d.holds ≠ some (e, n)) :
    TaskOk P' d := by
  refine hd.mono (fun e' n' hd' => ?_) (fun e' hd' hq hs => ?_) h.allGone (h.closed.trans ·)
    h.nextEntry.ge
  · rw [h.others e' fun he => hholds n' (he ▸ hd')]
    exact ⟨rfl, rfl, fun hlive => ⟨hlive, rfl⟩⟩
  · by_cases he : e' = e
    · subst he
      -- whoever else stores this entry closes the pool
      rcases hd.writer hd' with ⟨n', hn'⟩ | hall
      · exact absurd hn' (hholds n')
      · exact .inl (h.allGone hall)
    · rw [h.others e' he]
      exact .inr ⟨hq, hs⟩

/-- **A step of a task on the entry it has locked keeps the invariants.** -/
theorem Own.keeps_of (h : Own e n P c P' c') (hI : PoolOk P) (hP : TaskOk P c)
    (hc : c.holds = some (e, n)) (hbare : (P.entries e).barrier = true → (P'.entries e).gone = true) :
    Keeps P c P' c' where
  poolOk :=
    h.toLocal.poolOk hI (hI.born (hP.holds e n hc)) (h.homes hI.home hP.home (.inr hc)).1 hbare
  taskOk := by
    have hheld : ∀ e' n', c'.holds = some (e', n') → e = e' ∧ n = n' ∧
        (P'.entries e).lock = (P.entries e).lock := by
      intro e' n' hc'
      rcases h.holds with ⟨hh, hsame⟩ | ⟨hh, -⟩
      · obtain ⟨rfl, rfl⟩ : e = e' ∧ n = n' := by simpa using hh.symm.trans hc'
        exact ⟨rfl, rfl, hsame⟩
      · simp [hh] at hc'
    refine ⟨(h.homes hI.home hP.home (.inr hc)).2, ?_, ?_, ?_, h.of.notStray, ?_, ?_, ?_, ?_⟩
    · intro e' n' hc'
      obtain ⟨rfl, rfl, hsame⟩ := hheld e' n' hc'
      exact hsame.trans (hP.holds e n hc)
    · intro e' n' hc' hb
      obtain ⟨rfl, -⟩ := hheld e' n' (Task.holds_of_works hc')
      exact hbare (h.barrier ▸ hb)
    · intro e' n' s hc' _
      obtain ⟨rfl, -⟩ := hheld e' n' (by rw [hc']; rfl)
      exact (h.leased e n' s hc').1
    · intro e' hc'
      rcases h.writesOn with ⟨hw, -⟩ | ⟨hw, hw'⟩
      · cases hw.symm.trans hc'
      · obtain rfl : e = e' := by simpa using hw.symm.trans hc'
        rcases hw' with ⟨hq, hg⟩ | ⟨hw, hq, hg⟩
        · exact .inr ⟨hq, .inl hg⟩
        · rw [hg, hq, h.dropped]
          exact (hP.stored e hw).imp h.toLocal.allGone id
    · intro e' hc'
      simp [h.of.closes] at hc'
    · rintro rfl
      cases h.of
    · rintro e' rfl
      cases h.of
  others := by
    intro d hd hR
    refine ⟨h.toLocal.taskOk hd fun n' => hR.entry_ne hP hd hc, ?_⟩
    exact (h.stamps hc).apart (fun e' n' h' => hI.stamped e' n' (hd.holds e' n' h')) hR

/-- **A step of a lease keeps the invariants.** -/
theorem Own.keeps (h : Own e n P c P' c') (hI : PoolOk P) (hP : TaskOk P c)
    (hc : c.works = some (e, n)) : Keeps P c P' c' :=
  h.keeps_of hI hP (Task.holds_of_works hc) fun hb => h.gone (hP.bare e n hc hb)

/-! ## Steps that leave the entries alone -/

/-- The same entries, no earlier, and closed if it was. -/
structure Later (P P' : Pool) : Prop where
  entries : P'.entries = P.entries
  current : P'.current = P.current
  nextEntry : P'.nextEntry = P.nextEntry
  clock : P.clock ≤ P'.clock
  closed : P.closed = true → P'.closed = true

theorem SameEntries.later (h : SameEntries P P') : Later P P' :=
  ⟨h.entries, h.current, h.nextEntry, h.clock.ge, h.closed.trans⟩

theorem Later.allGone (h : Later P P') (hall : AllGone P) : AllGone P' :=
  ⟨h.closed hall.1, fun e => by rw [h.entries]; exact hall.2 e⟩

theorem Later.poolOk (h : Later P P') (hI : PoolOk P) : PoolOk P' where
  home e s hs := hI.home e s (by rw [← h.entries]; exact hs)
  unborn e he := by
    rw [h.entries]
    exact hI.unborn e (h.nextEntry ▸ he)
  live e he := by
    rw [h.current]
    exact hI.live e (by rw [← h.entries]; exact he)
  known e he := by
    rw [h.nextEntry]
    exact hI.known e (by rw [← h.current]; exact he)
  stamped e n hn := (hI.stamped e n (by rw [← h.entries]; exact hn)).trans_le h.clock
  dropped := by
    rw [h.entries]
    exact hI.dropped
  barred := by
    rw [h.entries]
    exact hI.barred

theorem Later.taskOk (h : Later P P') (hd : TaskOk P d) : TaskOk P' d := by
  refine hd.mono (fun e n hd' => ?_) (fun e hd' hq hs => ?_) h.allGone h.closed h.nextEntry.ge
  · rw [h.entries]
    exact ⟨rfl, rfl, fun hlive => ⟨hlive, rfl⟩⟩
  · rw [h.entries]
    exact .inr ⟨hq, hs⟩

/-- A task that has nothing: no lease, no store, no part in a `close`. -/
structure Task.Free (c : Task) : Prop where
  home : c.Home
  holds : c.holds = none
  writesOn : c.writesOn = none
  closes : c.closes = none

theorem Task.Free.taskOk (h : c.Free) (hmarks : c = .closeMarks → P.closed = true)
    (hwaits : ∀ e, c = .waits e → e < P.nextEntry) : TaskOk P c where
  home := h.home
  holds e n hc := by simp [h.holds] at hc
  bare e n hc := nomatch h.holds.symm.trans (Task.holds_of_works hc)
  leased e n s hc _ := by
    have := h.holds
    simp [hc, Task.holds] at this
  notStray e n s w hc := by
    have := h.writesOn
    simp [hc] at this
  stored e hc := nomatch h.writesOn.symm.trans hc
  closes e hc := by simp [h.closes] at hc
  marks := hmarks
  waits := hwaits

theorem apart_of_none (h : c.holds = none) : StampsApart c d :=
  fun _ _ _ _ hc => by simp [h] at hc

theorem free_looks : Task.Free .looks := ⟨Task.home_of_none rfl, rfl, rfl, rfl⟩

theorem free_ended : Task.Free .ended := ⟨Task.home_of_none rfl, rfl, rfl, rfl⟩

theorem free_waits : Task.Free (.waits e) := ⟨Task.home_of_none rfl, rfl, rfl, rfl⟩

/-- A step that leaves the entries alone and its task with nothing. -/
theorem Later.keeps_free (h : Later P P') (hI : PoolOk P) (hc' : c'.Free)
    (hmarks : c' = .closeMarks → P'.closed = true)
    (hwaits : ∀ e, c' = .waits e → e < P'.nextEntry) : Keeps P c P' c' :=
  ⟨h.poolOk hI, hc'.taskOk hmarks hwaits, fun _ hd _ => ⟨h.taskOk hd, apart_of_none hc'.holds⟩⟩

/-! ## A lease begins -/

theorem acquire_gone (e' : ℕ) : ((P.acquire e).entries e').gone = (P.entries e').gone := by
  rw [acquire_entry]

theorem acquire_allGone (hall : AllGone P) : AllGone (P.acquire e) :=
  ⟨hall.1, fun e' => by rw [acquire_gone]; exact hall.2 e'⟩

/-- **The lock of an entry is taken** by a task that has nothing. -/
theorem acquire_keeps (hI : PoolOk P) (hborn : e < P.nextEntry)
    (hfree : (P.entries e).lock = none) : Keeps P c (P.acquire e) (.acquired e P.clock) where
  poolOk := by
    refine ⟨hI.home.acquire e, ?_, ?_, hI.known, ?_, ?_, ?_⟩
    · intro e' he'
      have hne : e' ≠ e := fun h => absurd hborn (by rw [← h]; exact Nat.not_lt.2 he')
      rw [acquire_other hne]
      exact hI.unborn e' he'
    · intro e' hlive
      rw [acquire_gone] at hlive
      exact hI.live e' hlive
    · intro e' n' hlock
      rcases acquire_locks hlock with rfl | hlock
      · exact Nat.lt_succ_self _
      · exact (hI.stamped e' n' hlock).trans (Nat.lt_succ_self _)
    · intro e' hd
      rw [acquire_entry] at hd ⊢
      exact hI.dropped e' hd
    · intro e' hb hlive
      rw [acquire_entry] at hb hlive ⊢
      refine ⟨(hI.barred e' hb hlive).1, ?_⟩
      simp only
      split
      · simp
      · exact (hI.barred e' hb hlive).2
  taskOk := by
    refine ⟨Task.home_of_none rfl, ?_, ?_, by simp, by simp, by simp, by simp [Task.closes], by simp,
      by simp⟩
    · intro e' n' hc'
      obtain ⟨rfl, rfl⟩ : e = e' ∧ P.clock = n' := by simpa [Task.holds] using hc'
      rw [acquire_self]
    · intro e' n' hc' hb
      obtain ⟨rfl, -⟩ : e = e' ∧ P.clock = n' := by simpa [Task.works, Task.holds] using hc'
      -- a barrier in the map is locked
      rw [acquire_self] at hb ⊢
      by_contra hlive
      exact (hI.barred e hb (by simpa using hlive)).2 hfree
  others := by
    intro d hd hR
    have hne : ∀ e' n', d.holds = some (e', n') → e' ≠ e := by
      rintro e' n' hd' rfl
      have := hd.holds e' n' hd'
      simp [hfree] at this
    refine ⟨hd.mono (fun e' n' hd' => ?_) (fun e' hd' hq hs => ?_) acquire_allGone id le_rfl, ?_⟩
    · rw [acquire_other (hne e' n' hd')]
      exact ⟨rfl, rfl, fun hlive => ⟨hlive, rfl⟩⟩
    · rw [acquire_entry]
      exact .inr ⟨hq, hs⟩
    · intro e' n' e'' n'' hc' hd'
      obtain ⟨-, rfl⟩ : e = e' ∧ P.clock = n' := by simpa [Task.holds] using hc'
      exact (hI.stamped e'' n'' (hd.holds e'' n'' hd')).ne'

/-- No task of a pool that is open holds or writes an entry that is yet to be made. -/
theorem TaskOk.elsewhere (hd : TaskOk P d) (hI : PoolOk P) (hopen : P.closed = false) :
    ¬AllGone P ∧ (∀ e n, d.holds = some (e, n) → e ≠ P.nextEntry) ∧
      ∀ e, d.writesOn = some e → e ≠ P.nextEntry := by
  have hopen' : ¬AllGone P := not_allGone hopen
  have hne : ∀ e n, d.holds = some (e, n) → e ≠ P.nextEntry := fun e n hd' =>
    (hI.born (hd.holds e n hd')).ne
  refine ⟨hopen', hne, fun e hd' => ?_⟩
  rcases hd.writer hd' with ⟨n, hn⟩ | hall
  · exact hne e n hn
  · exact absurd hall hopen'

/-- **An entry is made**: nothing is in the map. -/
theorem add_keeps (hI : PoolOk P) (hopen : P.closed = false) (hnone : P.current = none) :
    Keeps P c (P.add .new) .looks where
  poolOk := by
    refine ⟨hI.home.add, ?_, ?_, ?_, ?_, ?_, ?_⟩
    · intro e he
      have hlt : P.nextEntry < e := he
      rw [add_other hlt.ne']
      exact hI.unborn e hlt.le
    · intro e hlive
      by_cases he : e = P.nextEntry
      · rw [he]
        rfl
      · rw [add_other he] at hlive
        nomatch (hI.live e hlive).symm.trans hnone
    · intro e he
      obtain rfl : P.nextEntry = e := by simpa [Pool.add] using he
      exact Nat.lt_succ_self _
    · intro e n hlock
      rcases add_entry P e with hnew | hold
      · rw [hnew] at hlock
        simp at hlock
      · rw [hold] at hlock
        exact hI.stamped e n hlock
    · intro e hd
      have hold := add_entry_of (F := (·.dropped = true)) hd
      rw [hold] at hd ⊢
      exact hI.dropped e hd
    · intro e hb hlive
      have hold := add_entry_of (F := (·.barrier = true)) hb
      rw [hold] at hb hlive ⊢
      exact hI.barred e hb hlive
  taskOk := free_looks.taskOk (by simp) (by simp)
  others := by
    intro d hd _
    obtain ⟨hopen', hne, hwrites⟩ := hd.elsewhere hI hopen
    refine ⟨hd.mono (fun e n hd' => ?_) (fun e hd' hq hs => ?_) (absurd · hopen') id (Nat.le_succ _),
      apart_of_none rfl⟩
    · rw [add_other (hne e n hd')]
      exact ⟨rfl, rfl, fun hlive => ⟨hlive, rfl⟩⟩
    · rw [add_other (hwrites e hd')]
      exact .inr ⟨hq, hs⟩

/-! ## `drop` -/

theorem barricade_live (hI : PoolOk P) (h : (P.barricade.entries e).gone = false) :
    e = P.nextEntry := by
  by_contra hne
  by_cases hold : P.current = some e
  · rw [barricade_old hne hold] at h
    simp at h
  · rw [barricade_other hne hold] at h
    exact hold (hI.live e h)

theorem barricade_barrier (hne : e ≠ P.nextEntry) :
    (P.barricade.entries e).barrier = (P.entries e).barrier := by
  by_cases hold : P.current = some e
  · rw [barricade_old hne hold]
  · rw [barricade_other hne hold]

theorem barricade_next : P.barricade.nextEntry = P.nextEntry + 1 := by
  unfold Pool.barricade
  split <;> rfl

theorem barricade_current : P.barricade.current = some P.nextEntry := by
  unfold Pool.barricade
  split <;> rfl

theorem barricade_closed : P.barricade.closed = P.closed := by
  unfold Pool.barricade
  split <;> rfl

/-- **A barrier takes the session's place.** -/
theorem barricade_keeps_ok {dead : List Sandbox} {old : Option ℕ} {p : Dropping} (hI : PoolOk P)
    (hopen : P.closed = false) :
    Keeps P .dropBegins { P.barricade with dead := dead } (.drops P.nextEntry P.clock old p) where
  poolOk := by
    refine ⟨hI.home.barricade, ?_, ?_, ?_, ?_, ?_, ?_⟩
    · intro e he
      have hlt : P.nextEntry < e := by
        rw [show ({ P.barricade with dead := dead } : Pool).nextEntry = _ from barricade_next] at he
        exact he
      have hold : P.current ≠ some e := fun h => by
        have := hI.known e h
        omega
      rw [show ({ P.barricade with dead := dead } : Pool).entries e = _ from
        barricade_other hlt.ne' hold]
      exact hI.unborn e hlt.le
    · intro e hlive
      rw [barricade_live hI hlive]
      exact barricade_current
    · intro e he
      have hcurrent : some P.nextEntry = some e := barricade_current.symm.trans he
      have hnext : ({ P.barricade with dead := dead } : Pool).nextEntry = P.nextEntry + 1 :=
        barricade_next
      simp only [Option.some.injEq] at hcurrent
      omega
    · intro e n hlock
      by_cases he : e = P.nextEntry
      · rw [he, show ({ P.barricade with dead := dead } : Pool).entries _ = _ from
          barricade_self P] at hlock
        obtain rfl : P.clock = n := by simpa using hlock
        exact Nat.lt_succ_self _
      · have hkeeps : (P.barricade.entries e).lock = (P.entries e).lock :=
          (barricade_keeps he).1
        exact (hI.stamped e n (hkeeps ▸ hlock)).trans (Nat.lt_succ_self _)
    · intro e hd
      by_contra hlive
      obtain rfl := barricade_live hI (by simpa using hlive)
      rw [show ({ P.barricade with dead := dead } : Pool).entries _ = _ from barricade_self P] at hd
      simp at hd
    · intro e _ hlive
      obtain rfl := barricade_live hI hlive
      rw [show ({ P.barricade with dead := dead } : Pool).entries _ = _ from barricade_self P]
      exact ⟨rfl, by simp⟩
  taskOk := by
    refine ⟨Task.home_of_none rfl, ?_, by simp [Task.works], by simp, by simp, by simp,
      by simp [Task.closes], by simp, by simp⟩
    intro e n hc
    obtain ⟨rfl, rfl⟩ : P.nextEntry = e ∧ P.clock = n := by simpa [Task.holds] using hc
    rw [show ({ P.barricade with dead := dead } : Pool).entries _ = _ from barricade_self P]
  others := by
    intro d hd _
    obtain ⟨hopen', hne, hwrites⟩ := hd.elsewhere hI hopen
    refine ⟨hd.mono (fun e n hd' => ⟨(barricade_keeps (hne e n hd')).1,
        barricade_barrier (hne e n hd'), fun hlive => ?_⟩)
      (fun e hd' hq hs => .inr ⟨(barricade_keeps (hwrites e hd')).2.1.trans hq, ?_⟩)
      (absurd · hopen') (barricade_closed.trans ·) (barricade_next.ge.trans' (Nat.le_succ _)), ?_⟩
    · exact absurd (barricade_live hI hlive) (hne e n hd')
    · by_cases hold : P.current = some e
      · refine .inr ?_
        rw [show ({ P.barricade with dead := dead } : Pool).entries e = _ from
          barricade_old (hwrites e hd') hold]
      · rw [show ({ P.barricade with dead := dead } : Pool).entries e = _ from
          barricade_other (hwrites e hd') hold]
        exact hs
    · intro e n e' n' hc hd'
      obtain ⟨-, rfl⟩ : P.nextEntry = e ∧ P.clock = n := by simpa [Task.holds] using hc
      exact (hI.stamped e' n' (hd.holds e' n' hd')).ne'

/-- **A step of `drop` keeps the invariants.** -/
theorem DropStep.keeps {b : ℕ} {old : Option ℕ} {p : Dropping}
    (h : DropStep rules b n old P p P' c') (hI : PoolOk P)
    (hP : TaskOk P (.drops b n old p)) : Keeps P (.drops b n old p) P' c' := by
  rcases h.cases with ⟨p', rfl, hsame⟩ | ⟨rfl, hentries, hcurrent, hnext, hclock, hclosed, -⟩
  · refine ⟨hsame.later.poolOk hI, ?_, fun d hd hR => ⟨hsame.later.taskOk hd, hR⟩⟩
    refine ⟨Task.home_of_none rfl, fun e n' hc => ?_, by simp [Task.works], by simp, by simp, by simp,
      by simp [Task.closes], by simp, by simp⟩
    rw [hsame.entries]
    exact hP.holds e n' hc
  · -- the barrier is taken away, and then time passes
    have hown : Own b n P (.drops b n old p) (P.unbar b) .ended := by
      have htame : Tame b makesNone P (P.unbar b) := tame_unbar
      refine { htame.toLocal with
        of := .ended, holds := .inr ⟨rfl, ?_⟩
        home := fun s hs => (htame.sandbox s hs).imp id False.elim
        leased := by simp, session := by simp [Task.session]
        writesOn := .inl ⟨rfl, .inl ?_⟩ } <;>
        simp [Pool.unbar]
    have hlater : Later (P.unbar b) P' :=
      ⟨hentries, hcurrent, hnext, hclock, hclosed.trans⟩
    have hkeeps := hown.keeps_of hI hP rfl fun _ => by simp [Pool.unbar]
    exact hkeeps.trans (hlater.keeps_free hkeeps.poolOk free_ended (by simp) (by simp))

/-! ## `close` -/

/-- A step on an entry of a pool that is being closed, which keeps the lock. -/
theorem Local.taskOk_closed (h : Local e P P') (hall : AllGone P)
    (hlock : (P'.entries e).lock = (P.entries e).lock) (hd : TaskOk P d) : TaskOk P' d := by
  refine hd.mono (fun e' n' hd' => ⟨?_, ?_, fun hlive => ?_⟩) (fun _ _ _ _ => .inl (h.allGone hall))
    h.allGone (h.closed.trans ·) h.nextEntry.ge
  · by_cases he : e' = e
    · rw [he, hlock]
    · rw [h.others e' he]
  · by_cases he : e' = e
    · rw [he, h.barrier]
    · rw [h.others e' he]
  · nomatch hlive.symm.trans ((h.allGone hall).2 e')

theorem Task.holds_of_closes (h : c.closes = some e) : c.holds = none := by
  cases c with
  | writes who e0 n s w => cases who <;> simp_all [closes, holds]
  | _ => simp_all [closes, holds]

/-- A task of `close` in a pool that is being closed. -/
theorem taskOk_closes (hall : AllGone P) (hborn : e < P.nextEntry) (hc : c.closes = some e) :
    TaskOk P c := by
  have hnone := Task.holds_of_closes hc
  refine ⟨fun e' n s h => by simp [hnone] at h, ?_, ?_, ?_, ?_, fun _ _ => .inl hall, ?_, ?_, ?_⟩
  · intro e' n h
    simp [hnone] at h
  · exact fun _ _ h => by cases hnone.symm.trans (Task.holds_of_works h)
  · rintro e' n s rfl
    simp [Task.closes] at hc
  · rintro e' n s w rfl
    simp [Task.closes] at hc
  · intro e' hc'
    obtain rfl : e = e' := by simpa using hc.symm.trans hc'
    exact ⟨hall, hborn⟩
  · rintro rfl
    simp [Task.closes] at hc
  · rintro e' rfl
    simp [Task.closes] at hc

/-- **A step of `close` on an entry** of a pool that is being closed. -/
theorem Local.keeps_closed (h : Local e P P') (hI : PoolOk P) (hP : TaskOk P c)
    (hc : c.closes = some e) (hc' : c'.closes = some e) (hhome : Home P')
    (hlock : (P'.entries e).lock = (P.entries e).lock) : Keeps P c P' c' := by
  obtain ⟨hall, hborn⟩ := hP.closes e hc
  refine ⟨h.poolOk hI hborn hhome fun _ => (h.allGone hall).2 e, ?_, fun d hd _ => ⟨?_, ?_⟩⟩
  · exact taskOk_closes (h.allGone hall) (hborn.trans_eq h.nextEntry.symm) hc'
  · exact h.taskOk_closed hall hlock hd
  · exact apart_of_none (Task.holds_of_closes hc')

/-- **A step of `_persist` in `close` keeps the invariants.** -/
theorem WriteStep.keeps_close {s : Sandbox} {w : Writing} {out : Written}
    (h : WriteStep rules owner session e n s P w P' out) (hI : PoolOk P)
    (hP : TaskOk P (.writes .close e n s w)) :
    Keeps P (.writes .close e n s w) (P'.wrote .close e n s out).1
      (P'.wrote .close e n s out).2 := by
  have he := h.effect
  have hhome := (h.homes hI.home hP.home).1
  cases out with
  | goes w' => exact he.toLocal.keeps_closed hI hP rfl rfl hhome he.lock_eq
  | _ =>
    refine h.wroteLocal.keeps_closed hI hP rfl rfl hhome ?_
    simpa [Pool.wrote, Pool.persisted] using he.lock_eq

/-- The map's entry is marked: now every entry is gone. -/
theorem markGone_allGone (hI : PoolOk P) (hclosed : P.closed = true)
    (hcurrent : P.current = some e) : AllGone (P.markGone e) := by
  refine ⟨hclosed, fun e' => ?_⟩
  by_cases he : e' = e
  · simp [he]
  · simp only [Pool.markGone, Pool.modify, Function.update_apply, he, if_false]
    by_contra hlive
    have hlive' := hI.live e' (by simpa using hlive)
    exact he (by simpa using hlive'.symm.trans hcurrent)

theorem markGone_keeps (hI : PoolOk P) (hclosed : P.closed = true) (hcurrent : P.current = some e) :
    Keeps P .closeMarks (P.markGone e) (.closeWaits e .looks) := by
  have hall := markGone_allGone hI hclosed hcurrent
  have hborn := hI.known e hcurrent
  refine ⟨⟨hI.home.markGone e, ?_, ?_, hI.known, ?_, fun e' _ => hall.2 e', ?_⟩,
    taskOk_closes hall hborn rfl, fun d hd _ => ⟨?_, apart_of_none rfl⟩⟩
  · intro e' he'
    have hlt : P.nextEntry ≤ e' := he'
    rw [markGone_entry, if_neg (show e' ≠ e by omega)]
    exact hI.unborn e' he'
  · exact fun e' hlive => nomatch hlive.symm.trans (hall.2 e')
  · intro e' n hlock
    rw [markGone_entry] at hlock
    exact hI.stamped e' n hlock
  · exact fun e' _ hlive => nomatch hlive.symm.trans (hall.2 e')
  · refine hd.mono (fun e' n hd' => ?_) (fun _ _ _ _ => .inl hall) (fun _ => hall)
      (fun _ => hclosed) le_rfl
    refine ⟨by rw [markGone_entry], by rw [markGone_entry], fun hlive => ?_⟩
    nomatch hlive.symm.trans (hall.2 e')

/-- The map is cleared of a pool that is being closed. -/
theorem clear_keeps (hI : PoolOk P) (hP : TaskOk P (.closeClears e)) :
    Keeps P (.closeClears e) ({ P with current := none }.clearSandbox e) .ended := by
  obtain ⟨hall, hborn⟩ := hP.closes e rfl
  have hI' : PoolOk { P with current := none } :=
    { hI with
      live := fun e' hlive => nomatch hlive.symm.trans (hall.2 e')
      known := by simp }
  have htame : Tame e makesNone { P with current := none }
      ({ P with current := none }.clearSandbox e) := tame_clearSandbox
  refine ⟨htame.toLocal.poolOk hI' hborn (htame.homes hI'.home) fun _ => ?_,
    free_ended.taskOk (by simp) (by simp), fun d hd _ => ⟨?_, apart_of_none rfl⟩⟩
  · exact (htame.toLocal.allGone hall).2 e
  · have hd' : TaskOk { P with current := none } d := { hd with }
    refine htame.toLocal.taskOk_closed hall ?_ hd'
    simp

/-! ## Every step -/

/-- **A step keeps the invariants**, where no release is astray. -/
theorem Step.keeps (hstray : rules.stray = false) (hs : Step rules owner session P c P' c')
    (hI : PoolOk P) (hP : TaskOk P c) : Keeps P c P' c' := by
  have hlater : Later P P := ⟨rfl, rfl, rfl, le_rfl, id⟩
  have hidle : ∀ {c c' : Task}, c'.Free → c' ≠ .closeMarks → (∀ e, c' ≠ .waits e) →
      Keeps P c P c' := fun hfree hm hw =>
    hlater.keeps_free hI hfree (fun h => absurd h hm) fun e h => absurd h (hw e)
  cases hs with
  | gives | timesOut | lost | releaseReturns | releaseVoid | dropRefused | closesEmpty | closeCancelled
  | closeWaitCancelled | closeWriteCancelled => exact hidle free_ended (by simp) (by simp)
  | creates hopen hnone =>
    have hadd : Keeps P .looks (P.add .new) .looks := add_keeps hI hopen hnone
    have hacquire : Keeps (P.add .new) .looks ((P.add .new).acquire P.nextEntry)
        (.acquired P.nextEntry P.clock) :=
      acquire_keeps hadd.poolOk (Nat.lt_succ_self _) (by rw [add_self]; rfl)
    exact hadd.trans (hacquire.trans (own_enter.keeps hacquire.poolOk hacquire.taskOk rfl))
  | @acquires e hopen hcurrent hfree =>
    have hacquire : Keeps P .looks (P.acquire e) (.acquired e P.clock) :=
      acquire_keeps hI (hI.known e hcurrent) hfree
    exact hacquire.trans (own_enter.keeps hacquire.poolOk hacquire.taskOk rfl)
  | @queues e hopen hcurrent =>
    refine hlater.keeps_free hI free_waits (by simp) fun e' h => ?_
    obtain rfl : e = e' := by simpa using h
    exact hI.known e hcurrent
  | granted hfree => exact acquire_keeps hI (hP.waits _ rfl) hfree
  | woken => exact hidle free_looks (by simp) (by simp)
  | resumes => exact own_enter.keeps hI hP rfl
  | prepares h => exact h.own.keeps hI hP rfl
  | releases hcurrent hbarrier hlocked hown =>
    obtain rfl := entry_of_release hI.home hP.home hown
    exact own_releases.keeps hI hP rfl
  | stray h => nomatch hstray.symm.trans h
  | @writes P' who e n s w out h =>
    cases who with
    | release => exact (h.own (.inl rfl)).keeps hI hP rfl
    | prepare => exact (h.own (.inr rfl)).keeps hI hP rfl
    | stray => exact absurd rfl (hP.notStray e n s w)
    | close => exact h.keeps_close hI hP
  | dropBegins hopen => exact barricade_keeps_ok hI hopen
  | drops h => exact h.keeps hI hP
  | closeBegins =>
    have hclosed : Later P { P with closed := true } := ⟨rfl, rfl, rfl, le_rfl, fun _ => rfl⟩
    exact hclosed.keeps_free hI ⟨Task.home_of_none rfl, rfl, rfl, rfl⟩ (fun _ => rfl) (by simp)
  | closeMarks hcurrent => exact markGone_keeps hI (hP.marks rfl) hcurrent
  | closeWaits | closeWoken | closeSkips =>
    exact Local.keeps_closed Local.refl hI hP rfl rfl hI.home rfl
  | closeWrites =>
    refine (tame_quiet false : Tame _ makesNone P _).toLocal.keeps_closed hI hP rfl rfl
      ((tame_quiet false).homes hI.home) ?_
    simp
  | closeClears => exact clear_keeps hI hP

/-- **The environment keeps the invariants.** -/
theorem Env.keeps (henv : Env rules owner session P P') (hI : PoolOk P) :
    PoolOk P' ∧ ∀ d, TaskOk P d → TaskOk P' d := by
  have hlater : Later P P' → PoolOk P' ∧ ∀ d, TaskOk P d → TaskOk P' d := fun h =>
    ⟨h.poolOk hI, fun d hd => h.taskOk hd⟩
  cases henv with
  | @evicts e hcurrent hfree =>
    have htame : Tame e makesNone P (P.evict e) := tame_forget.trans tame_clearSandbox
    refine ⟨htame.toLocal.poolOk hI (hI.known e hcurrent) (htame.homes hI.home) fun _ => ?_,
      fun d hd => htame.toLocal.taskOk hd fun n hd' => ?_⟩
    · simp [Pool.evict]
    · have := hd.holds e n hd'
      simp [hfree] at this
  | _ => exact hlater ⟨rfl, rfl, rfl, le_rfl, id⟩

theorem Join.free (h : Join P c) : c.Free ∧ c ≠ .closeMarks ∧ ∀ e, c ≠ .waits e := by
  cases h <;> exact ⟨⟨Task.home_of_none rfl, rfl, rfl, rfl⟩, by simp, by simp⟩

theorem Join.taskOk (h : Join P c) : TaskOk P c :=
  h.free.1.taskOk (fun h' => absurd h' h.free.2.1) fun e h' => absurd h' (h.free.2.2 e)

theorem poolOk_new : PoolOk .new where
  home e s h := by simp at h
  unborn _ _ := rfl
  live e h := by simp at h
  known e h := by simp at h
  stamped e n h := by simp at h
  dropped e h := by simp at h
  barred e h := by simp at h

end

/-- **The invariants hold in every run** where no release is astray. -/
theorem ok_of_reachable {rules : Rules} {owner session : List ℕ}
    {sys : Interleaving.Sys Pool Task} (hstray : rules.stray = false)
    (h : Reachable rules owner session sys) :
    PoolOk sys.shared ∧ (∀ c ∈ sys.parts, TaskOk sys.shared c) ∧ sys.parts.Pairwise StampsApart := by
  refine Interleaving.reachable_apart (I := PoolOk) (P := TaskOk) (R := StampsApart)
    ?_ ?_ ?_ ?_ ?_ ?_ ?_ ?_ h
  · exact StampsApart.symm
  · exact poolOk_new
  · exact fun hs hI hP => ⟨(hs.keeps hstray hI hP).poolOk, (hs.keeps hstray hI hP).taskOk⟩
  · exact fun hs hI hP hd hR => (hs.keeps hstray hI hP).others _ hd hR
  · exact fun hjoin _ => hjoin.taskOk
  · exact fun hjoin _ _ => (apart_of_none hjoin.free.1.holds).symm
  · exact fun henv hI => (henv.keeps hI).1
  · exact fun henv hI hd => (henv.keeps hI).2 _ hd

end Pydeno.Sessions
