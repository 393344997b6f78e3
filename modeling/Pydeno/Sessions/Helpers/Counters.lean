import Pydeno.Sessions.Helpers.Store
/-!
# Counters rise

A journal is stored under the counter after that of its entry, and then the
counter is recorded. When nobody is at the store, every journal of the session
is under the recorded counter or one below it (`CountOk.settled`). One task at a
time is at the store: a write whose entry is in the map, or one whose entry was
dropped and for which the drop waits, or a drop that is past that
(`CountOk.alone`). So what a task has read of the store still holds when it
writes (`Writing.Knows`, `Dropping.Knows`).

All this is said of runs without interrupted writes, and in which drops do not
cross, and up to the moment when `close` marks the entries.
-/

namespace Pydeno.Sessions

open Pool

/-! ## The invariant -/

/-- No journal of the session is under a counter above `k`. -/
def Pool.Below (owner session : List ℕ) (P : Pool) (k : ℕ) : Prop :=
  ∀ j, Value.journal owner session j ∈ P.ever → j.counter ≤ k

/-- The barrier of a drop is in the map. -/
def Pool.Barred (P : Pool) (b : ℕ) : Prop :=
  P.current = some b ∧ (P.entries b).gone = false ∧ (P.entries b).barrier = true

/-- The counter that a drop which replaced `old` will exceed. -/
def Pool.top (P : Pool) (old : Option ℕ) : ℕ :=
  old.elim P.counter fun e => max P.counter ((P.entries e).counter + 1)

section

variable (owner session : List ℕ)

/-- **The pool's invariant**, as far as counters go. -/
structure CountOk (P : Pool) : Prop where
  free : ∀ e, (P.entries e).lock = none → (P.entries e).quiet = true
  writing : ∀ e, (P.entries e).quiet = false → (P.entries e).gone = false ∨
    ((P.entries e).dropped = true ∧ ∃ b, P.Barred b)
  single : ∀ e e', (P.entries e).dropped = true → (P.entries e').dropped = true →
    (P.entries e).quiet = false → (P.entries e').quiet = false → e = e'
  settled : (∀ e, (P.entries e).quiet = true) → (∀ b, ¬P.Barred b) →
    P.Below owner session P.counter

/-- **What a write knows**, of the store and of its entry. -/
def Writing.Knows (P : Pool) (x : Entry) : Writing → Prop
  | .readsCounter c => c = x.counter + 1 ∧ P.Below owner session P.counter
  | .gotCounter c v => c = x.counter + 1 ∧ v = P.counter ∧ P.Below owner session P.counter
  | .dumps c => c = x.counter + 1 ∧ P.counter < c ∧ P.Below owner session P.counter
  | .closesSpent c => c = x.counter + 1 ∧ P.counter < c ∧ P.Below owner session P.counter
  | .setsJournal c _ => c = x.counter + 1 ∧ P.counter < c ∧ P.Below owner session P.counter
  | .journalSet c _ _ => c = x.counter + 1 ∧ P.counter < c ∧ P.Below owner session c
  | .setsCounter c _ _ => c = x.counter + 1 ∧ P.counter < c ∧ P.Below owner session c
  | .counterSet c _ _ => P.counter = c ∧ P.Below owner session c
  | .deletesJournal _ => x.dropped = true ∧ P.Below owner session (max P.counter (x.counter + 1))
  | .journalDeleted _ => x.dropped = true ∧ P.Below owner session (max P.counter (x.counter + 1))

/-- What `_restore` knows of its entry. -/
def Preparing.Knows (x : Entry) : Preparing → Prop
  | .readsFloor c => c = x.counter
  | .readsJournal floor => x.counter ≤ floor
  | .gotJournal floor _ => x.counter ≤ floor
  | .loads _ _ _ j => x.counter ≤ j.counter
  | _ => True

/-- **What a drop knows** of the store. -/
def Dropping.Knows (P : Pool) (old : Option ℕ) : Dropping → Prop
  | .closesSandbox => (∀ e, old = some e → (P.entries e).quiet = true) →
      P.Below owner session (P.top old)
  | .waitsQuiet => (∀ e, old = some e → (P.entries e).quiet = true) →
      P.Below owner session (P.top old)
  | .readsCounter => P.Below owner session (P.top old)
  | .gotCounter v => P.counter = v ∧ P.Below owner session (P.top old)
  | .deletes c => P.counter ≤ c ∧ P.Below owner session (c + 1)
  | .setsCounter c => P.counter ≤ c ∧ P.Below owner session c
  | .counterSet => P.Below owner session P.counter

/-- **A task's invariant**, as far as counters go. -/
structure CountTask (P : Pool) (c : Task) : Prop where
  quiet : ∀ e n, c.holds = some (e, n) → c.writesOn = none → (P.entries e).quiet = true
  writes : ∀ who e n s w, c = .writes who e n s w → w.Knows owner session P (P.entries e)
  prepares : ∀ e n p, c = .prepares e n p → p.Knows (P.entries e)
  /-- The only write of a dropped entry is one that the drop waits for. -/
  drops : ∀ b n old p, c = .drops b n old p → P.Barred b ∧
    (∀ e, (P.entries e).dropped = true → (P.entries e).quiet = false →
      old = some e ∧ p.passed = false) ∧ p.Knows owner session P old

end

section

variable {rules : Rules} {owner session : List ℕ} {e n : ℕ} {made : Sandbox → Prop}
variable {P P' pool'' : Pool} {c c' d : Task}

theorem Pool.Below.mono {k k' : ℕ} (h : P.Below owner session k) (hk : k ≤ k') :
    P.Below owner session k' :=
  fun j hj => (h j hj).trans hk

theorem Pool.Below.same {k : ℕ} (h : P.Below owner session k) (hever : P'.ever = P.ever) :
    P'.Below owner session k :=
  fun j hj => h j (hever ▸ hj)

theorem Pool.counter_le_top (P : Pool) (old : Option ℕ) : P.counter ≤ P.top old := by
  cases old with
  | none => exact le_rfl
  | some e => exact le_max_left _ _

/-- A task that has nothing. -/
theorem countTask_of (hholds : c.holds = none) (hwrites : c.writesOn = none) :
    CountTask owner session P c where
  quiet e n h := by cases hholds.symm.trans h
  writes who e n s w h := by simp [h] at hwrites
  prepares e n p h := by simp [h, Task.holds] at hholds
  drops b n old p h := by simp [h, Task.holds] at hholds

theorem quiet_of_others (hq : (P.entries e).quiet = true)
    (hall : ∀ e', e' ≠ e → (P.entries e').quiet = true) (e' : ℕ) :
    (P.entries e').quiet = true := by
  by_cases he : e' = e
  · rw [he]
    exact hq
  · exact hall e' he

/-- A pool in which nothing is being stored. -/
theorem countOk_of_quiet (hall : ∀ e, (P.entries e).quiet = true)
    (hbelow : P.Below owner session P.counter) : CountOk owner session P := by
  have hnot : ∀ e, (P.entries e).quiet ≠ false := fun e => by simp [hall e]
  exact ⟨fun e _ => hall e, fun e hq => absurd hq (hnot e), fun e _ _ _ hq => absurd hq (hnot e),
    fun _ _ => hbelow⟩

/-! ## One task at a time is at the store -/

section

variable (hI : PoolOk P) (hopen : ¬AllGone P)
include hI hopen

/-- Whoever stores an entry that is not gone stores the one in the map, and that
is no barrier. -/
theorem TaskOk.not_barred (hP : TaskOk P c) (hc : c.writesOn = some e)
    (hlive : (P.entries e).gone = false) (b : ℕ) : ¬P.Barred b := by
  rintro ⟨hb, -, hbarrier⟩
  obtain rfl : b = e := by simpa using hb.symm.trans (hI.live e hlive)
  obtain ⟨n, hn⟩ := (hP.writer hc).resolve_right hopen
  have hworks : c.works = some (b, n) := by
    cases c <;> simp_all [Task.works]
  cases hlive.symm.trans (hP.bare b n hworks hbarrier)

/-- **One task at a time is at the store.** -/
theorem CountOk.alone (hC : CountOk owner session P) (hP : TaskOk P c) (hd : TaskOk P d)
    (hdT : CountTask owner session P d) (hR : StampsApart c d) (hc : c.writesOn = some e) :
    d.writesOn = none ∧ ∀ b n old p, d = .drops b n old p → p.passed = false ∧ old = some e := by
  obtain ⟨hq, hs⟩ := (hP.stored e hc).resolve_left hopen
  refine ⟨?_, ?_⟩
  · by_contra hnone
    obtain ⟨e', he'⟩ := Option.ne_none_iff_exists'.1 hnone
    obtain ⟨hq', hs'⟩ := (hd.stored e' he').resolve_left hopen
    have hne : e ≠ e' := by
      rintro rfl
      obtain ⟨n, hn⟩ := (hP.writer hc).resolve_right hopen
      obtain ⟨n', hn'⟩ := (hd.writer he').resolve_right hopen
      exact hR.entry_ne hP hd hn hn'
    rcases hs with hlive | hdropped
    · rcases hC.writing e' hq' with hlive' | ⟨-, b, hb⟩
      · exact hne (by simpa using (hI.live e hlive).symm.trans (hI.live e' hlive'))
      · exact hP.not_barred hI hopen hc hlive b hb
    · rcases hs' with hlive' | hdropped'
      · rcases hC.writing e hq with hlive | ⟨-, b, hb⟩
        · cases hlive.symm.trans (hI.dropped e hdropped)
        · exact hd.not_barred hI hopen he' hlive' b hb
      · exact hne (hC.single e e' hdropped hdropped' hq hq')
  · intro b n old p hd'
    obtain ⟨hb, hold, -⟩ := hdT.drops b n old p hd'
    rcases hs with hlive | hdropped
    · exact absurd hb (hP.not_barred hI hopen hc hlive b)
    · exact (hold e hdropped hq).symm

end

/-! ## Steps on one entry -/

theorem Local.barred (h : Local e P P')
    (hbare : (P.entries e).barrier = true → (P.entries e).gone = true) {b : ℕ}
    (hb : P.Barred b) : P'.Barred b := by
  obtain ⟨hcurrent, hlive, hbarrier⟩ := hb
  have hne : b ≠ e := by
    rintro rfl
    cases hlive.symm.trans (hbare hbarrier)
  unfold Barred
  rw [h.others b hne]
  refine ⟨?_, hlive, hbarrier⟩
  rcases h.current with h1 | ⟨h1, -⟩
  · exact h1.trans hcurrent
  · exact absurd (by simpa using hcurrent.symm.trans h1) hne

/-- **A step after which its entry is quiet.** -/
theorem Local.countOk (h : Local e P P') (hC : CountOk owner session P)
    (hbare : (P.entries e).barrier = true → (P.entries e).gone = true)
    (hq : (P'.entries e).quiet = true)
    (hsettled : (∀ e', e' ≠ e → (P.entries e').quiet = true) → (∀ b, ¬P.Barred b) →
      P'.Below owner session P'.counter) : CountOk owner session P' := by
  have hne : ∀ {e'}, (P'.entries e').quiet = false → e' ≠ e := by
    rintro e' hq' rfl
    cases hq.symm.trans hq'
  refine ⟨fun e' hl => ?_, fun e' hq' => ?_, fun e₁ e₂ h1 h2 hq1 hq2 => ?_, fun hall hno => ?_⟩
  · by_cases he : e' = e
    · rw [he]
      exact hq
    · rw [h.others e' he] at hl ⊢
      exact hC.free e' hl
  · have hother := h.others e' (hne hq')
    rw [hother] at hq' ⊢
    exact (hC.writing e' hq').imp id fun ⟨hd, b, hb⟩ => ⟨hd, b, h.barred hbare hb⟩
  · have hother₁ := h.others e₁ (hne hq1)
    have hother₂ := h.others e₂ (hne hq2)
    rw [hother₁] at h1 hq1
    rw [hother₂] at h2 hq2
    exact hC.single e₁ e₂ h1 h2 hq1 hq2
  · refine hsettled (fun e' he => ?_) fun b hb => hno b (h.barred hbare hb)
    rw [← h.others e' he]
    exact hall e'

/-- **A step after which its entry is being stored.** -/
theorem Local.countOk_busy (h : Local e P P') (hC : CountOk owner session P)
    (hbare : (P.entries e).barrier = true → (P.entries e).gone = true)
    (hgone : (P.entries e).dropped = true → (P.entries e).gone = true)
    (hq : (P'.entries e).quiet = false) (hlock : (P'.entries e).lock ≠ none)
    (hwriting : (P'.entries e).gone = false ∨
      ((P.entries e).quiet = false ∧ (P'.entries e).gone = (P.entries e).gone)) :
    CountOk owner session P' := by
  refine ⟨fun e' hl => ?_, fun e' hq' => ?_, fun e₁ e₂ h1 h2 hq1 hq2 => ?_, fun hall => ?_⟩
  · by_cases he : e' = e
    · rw [he] at hl
      exact absurd hl hlock
    · rw [h.others e' he] at hl ⊢
      exact hC.free e' hl
  · by_cases he : e' = e
    · subst he
      rcases hwriting with hlive | ⟨hq0, hsame⟩
      · exact .inl hlive
      · rw [hsame, h.dropped]
        exact (hC.writing e' hq0).imp id fun ⟨hd, b, hb⟩ => ⟨hd, b, h.barred hbare hb⟩
    · rw [h.others e' he] at hq' ⊢
      exact (hC.writing e' hq').imp id fun ⟨hd, b, hb⟩ => ⟨hd, b, h.barred hbare hb⟩
  · -- what was dropped is gone, so no write of it begins
    have hold : ∀ e', (P'.entries e').dropped = true → (P'.entries e').quiet = false →
        (P.entries e').dropped = true ∧ (P.entries e').quiet = false := by
      intro e' hd hq'
      rw [(h.flags e').1] at hd
      refine ⟨hd, ?_⟩
      by_cases he : e' = e
      · subst he
        rcases hwriting with hlive | ⟨hq0, -⟩
        · cases hlive.symm.trans (h.gone (hgone hd))
        · exact hq0
      · rw [← h.others e' he]
        exact hq'
    obtain ⟨h1', hq1'⟩ := hold e₁ h1 hq1
    obtain ⟨h2', hq2'⟩ := hold e₂ h2 hq2
    exact hC.single e₁ e₂ h1' h2' hq1' hq2'
  · cases hq.symm.trans (hall e)

/-- **A step on an entry that another task does not hold** keeps that task's
invariant, if what it knows of the store still holds. -/
theorem CountTask.aside (hdT : CountTask owner session P d) (h : Local e P P') (hd : TaskOk P d)
    (hopen : ¬AllGone P) (hbare : (P.entries e).barrier = true → (P.entries e).gone = true)
    (hne : ∀ n, d.holds ≠ some (e, n))
    (hquiet : (P.entries e).dropped = true → (P.entries e).quiet = true →
      (P'.entries e).quiet = true)
    (hwrites : ∀ who e' n s w, d = .writes who e' n s w →
      w.Knows owner session P (P.entries e') → w.Knows owner session P' (P.entries e'))
    (hdrops : ∀ b n old p, d = .drops b n old p → p.Knows owner session P old →
      p.Knows owner session P' old) : CountTask owner session P' d where
  quiet e' n hd' hw := by
    rw [h.others e' fun he => hne n (he ▸ hd')]
    exact hdT.quiet e' n hd' hw
  writes who e' n s w hd' := by
    have hother : e' ≠ e := by
      rintro rfl
      obtain ⟨n', hn'⟩ := (hd.writer (e := e') (by rw [hd']; rfl)).resolve_right hopen
      exact hne n' hn'
    rw [h.others e' hother]
    exact hwrites who e' n s w hd' (hdT.writes who e' n s w hd')
  prepares e' n p hd' := by
    rw [h.others e' fun he => hne n (by rw [hd', ← he]; rfl)]
    exact hdT.prepares e' n p hd'
  drops b n old p hd' := by
    obtain ⟨hb, hold, hk⟩ := hdT.drops b n old p hd'
    refine ⟨h.barred hbare hb, fun e' hd' hq => ?_, hdrops b n old p ‹_› hk⟩
    by_cases he : e' = e
    · subst he
      rw [h.dropped] at hd'
      refine hold e' hd' ?_
      by_contra hq'
      cases hq.symm.trans (hquiet hd' (by simpa using hq'))
    · rw [h.others e' he] at hd' hq
      exact hold e' hd' hq

/-- **The entry's counter rises**, and the store is left alone. -/
theorem Dropping.Knows.rises {old : Option ℕ} {p : Dropping} (hk : p.Knows owner session P old)
    (h : Local e P P') (hq : (P.entries e).quiet = true) (hcounter : P'.counter = P.counter)
    (hever : P'.ever = P.ever) (hle : (P.entries e).counter ≤ (P'.entries e).counter) :
    p.Knows owner session P' old := by
  have htop : P.top old ≤ P'.top old := by
    cases old with
    | none => exact hcounter.ge
    | some e' =>
      by_cases he : e' = e
      · subst he
        simp only [top, Option.elim_some, hcounter]
        omega
      · simp only [top, Option.elim_some, hcounter, h.others e' he]
        exact le_rfl
  have hbelow : P.Below owner session (P.top old) → P'.Below owner session (P'.top old) :=
    fun hb => (hb.mono htop).same hever
  have hwas : (∀ e', old = some e' → (P'.entries e').quiet = true) →
      ∀ e', old = some e' → (P.entries e').quiet = true := by
    intro hall e' ho
    by_cases he : e' = e
    · rw [he]
      exact hq
    · rw [← h.others e' he]
      exact hall e' ho
  cases p with
  | closesSandbox => exact fun hall => hbelow (hk (hwas hall))
  | waitsQuiet => exact fun hall => hbelow (hk (hwas hall))
  | readsCounter => exact hbelow hk
  | gotCounter v => exact ⟨hcounter.trans hk.1, hbelow hk.2⟩
  | deletes c => exact ⟨hcounter.trans_le hk.1, hk.2.same hever⟩
  | setsCounter c => exact ⟨hcounter.trans_le hk.1, hk.2.same hever⟩
  | counterSet =>
    have hk' : P.Below owner session P.counter := hk
    exact (hk'.mono hcounter.ge).same hever

theorem Writing.Knows.same {w : Writing} {x : Entry} (hk : w.Knows owner session P x)
    (hcounter : P'.counter = P.counter) (hever : P'.ever = P.ever) :
    w.Knows owner session P' x := by
  have hbelow : P'.Below owner session = P.Below owner session := by
    unfold Below
    rw [hever]
  cases w <;> simpa only [Knows, hcounter, hbelow] using hk

/-! ## A piece of a step -/

/-- A task that works on its entry. -/
structure AtWork (owner session : List ℕ) (P : Pool) (e n : ℕ) : Prop where
  countOk : CountOk owner session P
  lock : (P.entries e).lock = some n
  quiet : (P.entries e).quiet = true
  gone : (P.entries e).dropped = true → (P.entries e).gone = true
  bare : (P.entries e).barrier = true → (P.entries e).gone = true

/-- **A piece of a step** begins a write only on an entry in the map. -/
theorem Piece.countOk (h : Piece e n made P (P', c')) (hA : AtWork owner session P e n) :
    CountOk owner session P' := by
  rcases h.writesOn with ⟨-, hq⟩ | ⟨hw, hq, hlive⟩
  · refine h.toLocal.countOk hA.countOk hA.bare (hq.trans hA.quiet) fun hall hno => ?_
    have hbelow := hA.countOk.settled (quiet_of_others hA.quiet hall) hno
    exact (hbelow.mono h.counter.ge).same h.ever
  · refine h.toLocal.countOk_busy hA.countOk hA.bare hA.gone hq ?_ (.inl hlive)
    rcases h.holds with ⟨-, hlock⟩ | ⟨hnone, -⟩
    · simp [show (P'.entries e).lock = _ from hlock, hA.lock]
    · have hof : c'.Of e n := h.of
      cases hof <;> simp [Task.holds] at hw hnone

theorem Piece.countTask (h : Piece e n made P (P', c')) (hblank : c'.Blank P')
    (hq : (P.entries e).quiet = true)
    (hstart : c'.writesOn = some e → P.Below owner session P.counter) :
    CountTask owner session P' c' := by
  have hof : c'.Of e n := h.of
  refine ⟨fun e' n' hh hw => ?_, ?_, ?_, ?_⟩
  · obtain rfl : e' = e := by cases hof <;> simp_all [Task.holds]
    rcases h.writesOn with ⟨-, h1⟩ | ⟨h1, -⟩
    · exact h1.trans hq
    · cases hw.symm.trans h1
  · rintro who e' n' s w rfl
    obtain rfl : e' = e := by cases hof <;> rfl
    have hbelow := ((hstart rfl).mono h.counter.ge).same h.ever
    cases w with
    | readsCounter k => exact ⟨hblank, hbelow⟩
    | _ => exact hblank.elim
  · rintro e' n' p rfl
    cases p with
    | readsFloor k => exact hblank
    | readsJournal | gotJournal | loads => exact hblank.elim
    | _ => trivial
  · rintro b m old p rfl
    cases hof

/-- **A step keeps what is known of counters**, by its own task and by every
other one. -/
structure Counts (owner session : List ℕ) (P : Pool) (c : Task) (P' : Pool) (c' : Task) :
    Prop where
  countOk : CountOk owner session P'
  countTask : CountTask owner session P' c'
  others : ∀ d, TaskOk P d → StampsApart c d → CountTask owner session P d →
    CountTask owner session P' d

theorem Counts.trans {c'' : Task} (h : Counts owner session P c P' c') (hk : Keeps P c P' c')
    (h' : Counts owner session P' c' pool'' c'') : Counts owner session P c pool'' c'' := by
  refine ⟨h'.countOk, h'.countTask, fun d hd hR hdT => ?_⟩
  obtain ⟨hd', hR'⟩ := hk.others d hd hR
  exact h'.others d hd' hR' (h.others d hd hR hdT)

/-- A task with a lease that is not storing. -/
theorem CountTask.atWork (hT : CountTask owner session P c) (hI : PoolOk P) (hP : TaskOk P c)
    (hC : CountOk owner session P) (hc : c.works = some (e, n)) (hw : c.writesOn = none) :
    AtWork owner session P e n where
  countOk := hC
  lock := hP.holds e n (Task.holds_of_works hc)
  quiet := hT.quiet e n (Task.holds_of_works hc) hw
  gone := hI.dropped e
  bare := hP.bare e n hc

/-- Nobody is at the store when a task works on the entry in the map. -/
theorem AtWork.below (hA : AtWork owner session P e n) (hI : PoolOk P)
    (hlive : (P.entries e).gone = false) : P.Below owner session P.counter := by
  have hcurrent := hI.live e hlive
  have hno : ∀ b, ¬P.Barred b := by
    rintro b ⟨hb, -, hbarrier⟩
    obtain rfl : b = e := by simpa using hb.symm.trans hcurrent
    cases hlive.symm.trans (hA.bare hbarrier)
  refine hA.countOk.settled (fun e' => ?_) hno
  by_contra hq
  rcases hA.countOk.writing e' (by simpa using hq) with hlive' | ⟨-, b, hb⟩
  · obtain rfl : e' = e := by simpa using (hI.live e' hlive').symm.trans hcurrent
    exact hq hA.quiet
  · exact hno b hb

/-- **A step of a lease that is not storing.** -/
theorem Piece.counts (h : Piece e n made P (P', c')) (hblank : c'.Blank P')
    (hle : (P.entries e).counter ≤ (P'.entries e).counter) (hI : PoolOk P)
    (hopen : ¬AllGone P) (hP : TaskOk P c) (hC : CountOk owner session P)
    (hT : CountTask owner session P c) (hc : c.works = some (e, n)) (hw : c.writesOn = none) :
    Counts owner session P c P' c' := by
  have hA := hT.atWork hI hP hC hc hw
  refine ⟨h.countOk hA, h.countTask hblank hA.quiet fun hw' => ?_, fun d hd hR hdT => ?_⟩
  · rcases h.writesOn with ⟨h1, -⟩ | ⟨-, -, hlive⟩
    · cases h1.symm.trans hw'
    · refine hA.below hI ?_
      by_contra hg
      cases hlive.symm.trans (h.gone (by simpa using hg))
  · refine hdT.aside h.toLocal hd hopen hA.bare
      (fun n' => hR.entry_ne hP hd (Task.holds_of_works hc)) (fun hdropped _ => ?_) ?_ ?_
    · rcases h.writesOn with ⟨-, h1⟩ | ⟨-, -, hlive⟩
      · exact h1.trans hA.quiet
      · cases hlive.symm.trans (h.gone (hI.dropped e hdropped))
    · exact fun _ _ _ _ _ _ hk => hk.same h.counter h.ever
    · exact fun _ _ _ _ _ hk => hk.rises h.toLocal hA.quiet h.counter h.ever hle

theorem Leaves.countsOf (hl : Leaves e P (P', c')) (h : Piece e n made P (P', c')) (hI : PoolOk P)
    (hopen : ¬AllGone P) (hP : TaskOk P c) (hC : CountOk owner session P)
    (hT : CountTask owner session P c) (hc : c.works = some (e, n)) (hw : c.writesOn = none) :
    Counts owner session P c P' c' :=
  h.counts hl.blank hl.counts.ge hI hopen hP hC hT hc hw

/-! ## `_prepare` -/

theorem countTask_prepares {p : Preparing} (hq : (P.entries e).quiet = true)
    (hk : p.Knows (P.entries e)) : CountTask owner session P (.prepares e n p) where
  quiet e' n' h _ := by
    obtain ⟨rfl, -⟩ : e = e' ∧ n = n' := by simpa [Task.holds] using h
    exact hq
  writes := by simp
  prepares e' n' p' h := by
    obtain ⟨rfl, -, rfl⟩ := Task.prepares.inj h
    exact hk
  drops := by simp

/-- A step that leaves the pool alone. -/
theorem counts_of (hC : CountOk owner session P) (hT : CountTask owner session P c') :
    Counts owner session P c P c' :=
  ⟨hC, hT, fun _ _ _ hdT => hdT⟩

/-- **A step of `_prepare`**: the counter of its entry does not fall. -/
theorem PrepareStep.counts {p : Preparing} (h : PrepareStep owner session e n P p P' c')
    (hI : PoolOk P) (hopen : ¬AllGone P) (hP : TaskOk P (.prepares e n p))
    (hC : CountOk owner session P) (hT : CountTask owner session P (.prepares e n p)) :
    Counts owner session P (.prepares e n p) P' c' := by
  have hk := hT.prepares e n p rfl
  have hq := hT.quiet e n rfl rfl
  have hpiece := h.piece
  have hleaves : Leaves e P (P', c') → Counts owner session P (.prepares e n p) P' c' := fun hl =>
    hl.countsOf hpiece hI hopen hP hC hT rfl rfl
  cases h with
  | raises => exact hleaves leaves_prepareFails
  | checks => exact counts_of hC (countTask_prepares hq trivial)
  | checked => exact hleaves leaves_afterCheck
  | readsFloor =>
    exact counts_of hC (countTask_prepares hq ((Nat.le_of_eq hk.symm).trans (le_max_left _ _)))
  | readsJournal => exact counts_of hC (countTask_prepares hq hk)
  | empty =>
    refine hpiece.counts trivial ?_ hI hopen hP hC hT rfl rfl
    simpa [Preparing.Knows] using hk
  | opens hfloor =>
    have hle : (P.entries e).counter ≤ _ := hk
    exact counts_of hC (countTask_prepares hq (hle.trans hfloor))
  | created => exact hleaves leaves_install
  | @loaded f o i j hbound =>
    have hinstall : Leaves e (P.modify e ({ · with counter := j.counter }))
      ((P.modify e ({ · with counter := j.counter })).install e n (some j)) := leaves_install
    refine hpiece.counts ?_ ?_ hI hopen hP hC hT rfl rfl
    · simp only [restore]
      split <;> exact hinstall.blank
    · have hcounter : ((P.modify e ({ · with counter := j.counter })).entries e).counter
          = j.counter := by simp
      simp only [restore]
      split <;> exact hk.trans_eq (hinstall.counts.trans hcounter).symm
  | discards => exact hleaves leaves_of

/-! ## `_persist` -/

section

variable {s : Sandbox} {w : Writing} {who : Who} {out : Written}

/-- **A step of `_persist` and what it knows.** When it ends, its journal is at
most one above the recorded counter, and not above it if the entry was not
dropped. -/
theorem WriteStep.knows (hcutting : rules.cutting = false)
    (h : WriteStep rules owner session e n s P w P' out)
    (hk : w.Knows owner session P (P.entries e)) :
    (∀ w', out = .goes w' → w'.Knows owner session P' (P'.entries e)) ∧
    ((∀ w', out ≠ .goes w') →
      P'.Below owner session (max P'.counter ((P'.entries e).counter + 1)) ∧
      ((P.entries e).dropped = false → P'.Below owner session P'.counter)) := by
  -- where every journal is at or below the recorded counter
  have hends : ∀ {Q : Pool}, Q.Below owner session Q.counter → (∀ w', out ≠ .goes w') →
      Q.Below owner session (max Q.counter ((Q.entries e).counter + 1)) ∧
      ((P.entries e).dropped = false → Q.Below owner session Q.counter) :=
    fun hb _ => ⟨hb.mono (le_max_left _ _), fun _ => hb⟩
  cases h with
  | fails hcut =>
    refine ⟨by simp, ?_⟩
    cases w with
    | readsCounter => exact hends hk.2
    | gotCounter | dumps | closesSpent | setsJournal => exact hends hk.2.2
    | journalSet | setsCounter => cases hcut hcutting
    | counterSet => exact hends (hk.2.mono hk.1.ge)
    | deletesJournal | journalDeleted => exact fun _ => ⟨hk.2, fun h => by cases hk.1.symm.trans h⟩
  | reads => exact ⟨fun w' h => by cases h; exact ⟨hk.1, rfl, hk.2⟩, fun h => absurd rfl (h _)⟩
  | dropped | dumpedLate => exact ⟨by simp, hends hk.2.2⟩
  | stale => exact ⟨by simp, hends (hk.2.2.same rfl)⟩
  | current hlive hcurrent =>
    refine ⟨fun w' h => ?_, fun h => absurd rfl (h _)⟩
    cases h
    obtain ⟨rfl, rfl, hb⟩ := hk
    exact ⟨rfl, Nat.lt_succ_of_le hcurrent, hb⟩
  | dumped | tooLarge | journalSet =>
    exact ⟨fun w' h => by cases h; exact hk, fun h => absurd rfl (h _)⟩
  | spends => exact ⟨fun w' h => by cases h; exact hk, fun h => absurd rfl (h _)⟩
  | spendsLate => exact ⟨by simp, hends (hk.2.2.same rfl)⟩
  | @setsJournal k spent =>
    refine ⟨fun w' h => ?_, fun h => absurd rfl (h _)⟩
    cases h
    refine ⟨hk.1, hk.2.1, fun j hj => ?_⟩
    rcases List.mem_append.1 hj with hj | hj
    · exact (hk.2.2 j hj).trans hk.2.1.le
    · obtain rfl : j = ⟨k, n, P.written⟩ := by simpa using hj
      exact le_rfl
  | journalSetLate hdropped =>
    refine ⟨fun w' h => ?_, fun h => absurd rfl (h _)⟩
    cases h
    exact ⟨hdropped, hk.2.2.mono (hk.1 ▸ le_max_right _ _)⟩
  | setsCounter =>
    exact ⟨fun w' h => by cases h; exact ⟨rfl, hk.2.2⟩, fun h => absurd rfl (h _)⟩
  | @counterSet k spent j hlive =>
    have hb : { P.modify e ({ · with counter := k }) with saved := some j }.Below owner session
      P.counter := hk.2.mono hk.1.ge
    refine ⟨fun w' h => absurd h (wroteAll_goes _), hends ?_⟩
    rw [(wroteAll_same _).counter]
    exact hb.same (wroteAll_same _).ever
  | counterSetLate hdropped =>
    refine ⟨fun w' h => ?_, fun h => absurd rfl (h _)⟩
    cases h
    refine ⟨by simpa using hdropped, Below.same (hk.2.mono (hk.1.ge.trans (le_max_left _ _))) rfl⟩
  | deletesJournal => exact ⟨fun w' h => by cases h; exact hk, fun h => absurd rfl (h _)⟩
  | @journalDeleted spent =>
    refine ⟨fun w' h => absurd h (wroteAll_goes _), fun _ => ⟨?_, fun h => ?_⟩⟩
    · rw [(wroteAll_same _).counter, wroteAll_counter]
      exact hk.2.same (wroteAll_same _).ever
    · cases hk.1.symm.trans h

/-- Of the other tasks, only a drop that waits for this write looks at the store. -/
theorem WriteStep.countOthers (hwho : who = .release ∨ who = .prepare) (hI : PoolOk P)
    (hopen : ¬AllGone P) (hP : TaskOk P (.writes who e n s w)) (hC : CountOk owner session P)
    (hlocal : Local e P P')
    (hbelow : (P'.entries e).quiet = true → P'.Below owner session (P'.top (some e)))
    (hd : TaskOk P d) (hR : StampsApart (.writes who e n s w) d)
    (hdT : CountTask owner session P d) : CountTask owner session P' d := by
  have hworks := Task.works_writes hwho e n s w
  have hq := ((hP.stored e rfl).resolve_left hopen).1
  obtain ⟨hnone, hwaits⟩ := hC.alone hI hopen hP hd hdT hR (e := e) rfl
  refine hdT.aside hlocal hd hopen (hP.bare e n hworks)
    (fun n' => hR.entry_ne hP hd (Task.holds_of_works hworks))
    (fun _ h => by cases h.symm.trans hq) (fun who' e' n' s' w' hd' => ?_) ?_
  · simp [hd'] at hnone
  · intro b m old p hd' _
    obtain ⟨hp, rfl⟩ := hwaits b m old p hd'
    cases p <;> simp [Dropping.passed] at hp <;> exact fun hall => hbelow (hall e rfl)

/-- **`_persist` ends**: the entry is quiet, and a piece of a step follows. -/
theorem WriteStep.countEnds (hcutting : rules.cutting = false)
    (hwho : who = .release ∨ who = .prepare)
    (h : WriteStep rules owner session e n s P w P' out) (hI : PoolOk P) (hopen : ¬AllGone P)
    (hP : TaskOk P (.writes who e n s w)) (hC : CountOk owner session P)
    (hT : CountTask owner session P (.writes who e n s w)) (returned : Bool)
    (hnot : ∀ w', out ≠ .goes w') : Counts owner session P (.writes who e n s w)
      (P'.persisted who e n s returned).1 (P'.persisted who e n s returned).2 := by
  have hworks := Task.works_writes hwho e n s w
  have hbare := hP.bare e n hworks
  have hlock := hP.holds e n (Task.holds_of_works hworks)
  have hq := ((hP.stored e rfl).resolve_left hopen).1
  obtain ⟨hmax, hsettled⟩ := (h.knows hcutting (hT.writes who e n s w rfl)).2 hnot
  obtain ⟨hpiece, hnone⟩ := piece_persisted hwho P' e n s returned
  have hlocal : Local e P (P'.modify e ({ · with quiet := true })) :=
    h.effect.toLocal.trans (tame_quiet true : Tame e makesNone P' _).toLocal
  have hA : AtWork owner session (P'.modify e ({ · with quiet := true })) e n := by
    refine ⟨hlocal.countOk hC hbare (by simp) fun _ hno => (hsettled ?_).same rfl, ?_, by simp,
      fun hd => ?_, fun hb => ?_⟩
    · -- the drop of a dropped entry is still in progress
      by_contra hd
      rcases hC.writing e hq with hlive | ⟨-, b, hb⟩
      · cases hlive.symm.trans (hI.dropped e (by simpa using hd))
      · exact hno b hb
    · simpa using h.effect.lock_eq.trans hlock
    · exact hlocal.gone (hI.dropped e (hlocal.dropped ▸ hd))
    · exact hlocal.gone (hbare (hlocal.barrier ▸ hb))
  have hleaves : Leaves e P' (P'.persisted who e n s returned) := leaves_persisted
  refine ⟨hpiece.countOk hA, hpiece.countTask hleaves.blank hA.quiet fun hw => ?_,
    fun d => WriteStep.countOthers hwho hI hopen hP hC (hlocal.trans hpiece.toLocal) fun _ => ?_⟩
  · cases hnone.symm.trans hw
  · simp only [top, Option.elim_some, hleaves.counts, hleaves.counter]
    exact hmax.same hleaves.ever

/-- **A step of `_persist` keeps what is known of counters.** -/
theorem WriteStep.counts (hcutting : rules.cutting = false) (hwho : who = .release ∨ who = .prepare)
    (h : WriteStep rules owner session e n s P w P' out) (hI : PoolOk P) (hopen : ¬AllGone P)
    (hP : TaskOk P (.writes who e n s w)) (hC : CountOk owner session P)
    (hT : CountTask owner session P (.writes who e n s w)) :
    Counts owner session P (.writes who e n s w) (P'.wrote who e n s out).1
      (P'.wrote who e n s out).2 := by
  cases out with
  | goes w' =>
    have hworks := Task.works_writes hwho e n s w
    have hlock := hP.holds e n (Task.holds_of_works hworks)
    have hq := ((hP.stored e rfl).resolve_left hopen).1
    have he := h.effect
    have hgone : (P'.entries e).gone = (P.entries e).gone := by simpa using he.gone_eq
    have hq' : (P'.entries e).quiet = false := he.quiet.trans hq
    refine ⟨he.toLocal.countOk_busy hC (hP.bare e n hworks) (hI.dropped e) hq'
      (by simp [he.lock_eq, hlock]) (.inr ⟨hq, hgone⟩), ?_, fun d =>
      WriteStep.countOthers hwho hI hopen hP hC he.toLocal fun h => by cases h.symm.trans hq'⟩
    refine ⟨fun e' n' _ hw => by simp [wrote] at hw, ?_, by simp [wrote], by simp [wrote]⟩
    intro who' e' n' s' w1 hc
    obtain ⟨-, rfl, -, -, rfl⟩ := Task.writes.inj hc
    exact (h.knows hcutting (hT.writes who e n s w rfl)).1 w' rfl
  | returns => exact h.countEnds hcutting hwho hI hopen hP hC hT true (by simp)
  | raises => exact h.countEnds hcutting hwho hI hopen hP hC hT false (by simp)

end

/-! ## Steps that leave the counters alone -/

/-- The same pool, but for locks that are taken, sandboxes, and what the counters
do not depend on. -/
structure Alike (owner session : List ℕ) (P P' : Pool) : Prop where
  entry : ∀ e, ∃ l s, P'.entries e = { P.entries e with lock := l, sandbox := s }
  free : ∀ e, (P'.entries e).lock = none → (P.entries e).lock = none
  current : P'.current = P.current
  counter : P'.counter = P.counter
  below : P'.Below owner session = P.Below owner session

theorem alike_of (hbelow : P'.Below owner session = P.Below owner session)
    (hentries : P'.entries = P.entries := by rfl) (hcurrent : P'.current = P.current := by rfl)
    (hcounter : P'.counter = P.counter := by rfl) : Alike owner session P P' :=
  ⟨fun e => ⟨_, _, by rw [hentries]⟩, fun e => by rw [hentries]; exact id, hcurrent, hcounter, hbelow⟩

theorem Alike.barred (h : Alike owner session P P') (b : ℕ) : P'.Barred b ↔ P.Barred b := by
  obtain ⟨l, s, he⟩ := h.entry b
  unfold Barred
  rw [he, h.current]

theorem Alike.countOk (h : Alike owner session P P') (hC : CountOk owner session P) :
    CountOk owner session P' := by
  refine ⟨fun e hl => ?_, fun e hq => ?_, fun e₁ e₂ h1 h2 hq1 hq2 => ?_, fun hall hno => ?_⟩
  · have hfree := hC.free e (h.free e hl)
    obtain ⟨l, s, he⟩ := h.entry e
    rw [he]
    exact hfree
  · obtain ⟨l, s, he⟩ := h.entry e
    rw [he] at hq ⊢
    exact (hC.writing e hq).imp id fun ⟨hd, b, hb⟩ => ⟨hd, b, (h.barred b).2 hb⟩
  · obtain ⟨l₁, s₁, he₁⟩ := h.entry e₁
    obtain ⟨l₂, s₂, he₂⟩ := h.entry e₂
    rw [he₁] at h1 hq1
    rw [he₂] at h2 hq2
    exact hC.single e₁ e₂ h1 h2 hq1 hq2
  · rw [h.counter, h.below]
    refine hC.settled (fun e => ?_) fun b hb => hno b ((h.barred b).2 hb)
    have hq := hall e
    obtain ⟨l, s, he⟩ := h.entry e
    rw [he] at hq
    exact hq

theorem Alike.countTask (h : Alike owner session P P') (hdT : CountTask owner session P d) :
    CountTask owner session P' d := by
  have hquiet : ∀ e, (P'.entries e).quiet = (P.entries e).quiet := fun e => by
    obtain ⟨l, s, he⟩ := h.entry e
    rw [he]
  refine ⟨fun e n hh hw => (hquiet e).trans (hdT.quiet e n hh hw), fun who e n s w hd => ?_,
    fun e n p hd => ?_, fun b m old p hd => ?_⟩
  · have hk := hdT.writes who e n s w hd
    obtain ⟨l, s, he⟩ := h.entry e
    rw [he]
    cases w <;> simpa only [Writing.Knows, h.counter, h.below] using hk
  · have hk := hdT.prepares e n p hd
    obtain ⟨l, s, he⟩ := h.entry e
    rw [he]
    cases p <;> exact hk
  · obtain ⟨hb, hold, hk⟩ := hdT.drops b m old p hd
    refine ⟨(h.barred b).2 hb, fun e h1 hq => ?_, ?_⟩
    · obtain ⟨l, s, he⟩ := h.entry e
      rw [he] at h1 hq
      exact hold e h1 hq
    · have htop : P'.top old = P.top old := by
        unfold top
        cases old with
        | none => exact h.counter
        | some e =>
          obtain ⟨l, s, he⟩ := h.entry e
          simp only [Option.elim_some, he, h.counter]
      cases p <;> simpa only [Dropping.Knows, htop, hquiet, h.counter, h.below] using hk

/-- A step that leaves the counters alone and its task with nothing. -/
theorem Alike.counts (h : Alike owner session P P') (hC : CountOk owner session P)
    (hT : CountTask owner session P' c') : Counts owner session P c P' c' :=
  ⟨h.countOk hC, hT, fun _ _ _ => h.countTask⟩

/-- A step that is followed by such a change. -/
theorem Counts.alike (h : Counts owner session P c P' c') (ha : Alike owner session P' pool'') :
    Counts owner session P c pool'' c' :=
  ⟨ha.countOk h.countOk, ha.countTask h.countTask,
    fun d hd hR hdT => ha.countTask (h.others d hd hR hdT)⟩

/-! ## A lease begins, a drop begins -/

theorem acquire_counts (hC : CountOk owner session P) (hfree : (P.entries e).lock = none) :
    Counts owner session P c (P.acquire e) (.acquired e P.clock) := by
  refine Alike.counts ⟨fun e' => ⟨_, _, acquire_entry P e e'⟩, fun e' hl => ?_, rfl, rfl, rfl⟩ hC
    ⟨fun e' n' hh _ => ?_, by simp, by simp, by simp⟩
  · rw [acquire_entry] at hl
    simp only at hl
    split at hl
    · cases hl
    · exact hl
  · obtain ⟨rfl, -⟩ : e = e' ∧ P.clock = n' := by simpa [Task.holds] using hh
    rw [acquire_entry]
    exact hC.free e hfree

/-- **An entry is made**: nobody is at the store. -/
theorem add_counts (hI : PoolOk P) (hopen : ¬AllGone P) (hC : CountOk owner session P)
    (hnone : P.current = none) : Counts owner session P c (P.add .new) .looks := by
  have hno : ∀ b, ¬P.Barred b := fun b hb => by cases hnone.symm.trans hb.1
  have hall : ∀ e, (P.entries e).quiet = true := by
    intro e
    by_contra hq
    rcases hC.writing e (by simpa using hq) with hlive | ⟨-, b, hb⟩
    · cases hnone.symm.trans (hI.live e hlive)
    · exact hno b hb
  have hquiet : ∀ e, ((P.add .new).entries e).quiet = true := by
    intro e
    rcases add_entry P e with h | h
    · rw [h]
      rfl
    · rw [h]
      exact hall e
  refine ⟨countOk_of_quiet hquiet (hC.settled hall hno), countTask_of rfl rfl,
    fun d hd _ hdT => ?_⟩
  refine ⟨fun e n _ _ => hquiet e, fun who e n s w hd' => ?_, fun e n p hd' => ?_,
    fun b m old p hd' => ?_⟩
  · -- nobody stores a quiet entry
    have := ((hd.stored e (by rw [hd']; rfl)).resolve_left hopen).1
    simp [hall e] at this
  · have he := hI.born (hd.holds e n (by rw [hd']; rfl))
    rw [add_other he.ne]
    exact hdT.prepares e n p hd'
  · exact absurd (hdT.drops b m old p hd').1 (hno b)

theorem barricade_store : P.barricade.counter = P.counter ∧ P.barricade.ever = P.ever := by
  unfold barricade
  split <;> exact ⟨rfl, rfl⟩

theorem barricade_barred : P.barricade.Barred P.nextEntry := by
  refine ⟨barricade_current, ?_, ?_⟩
  all_goals rw [barricade_self]
  rfl

/-- What another task knows when a drop begins where no other is in progress. -/
theorem barricade_countTask (hI : PoolOk P) (hopen : P.closed = false) (hno : ∀ b, ¬P.Barred b)
    (hd : TaskOk P d) (hdT : CountTask owner session P d) :
    CountTask owner session P.barricade d := by
  obtain ⟨-, hne, hwrites⟩ := hd.elsewhere hI hopen
  have hkeeps : ∀ e, e ≠ P.nextEntry → (P.barricade.entries e).counter = (P.entries e).counter ∧
      ((P.entries e).dropped = true → (P.barricade.entries e).dropped = true) := by
    intro e he
    by_cases hc : P.current = some e
    · rw [barricade_old he hc]
      exact ⟨rfl, fun _ => rfl⟩
    · rw [barricade_other he hc]
      exact ⟨rfl, id⟩
  refine ⟨fun e n hh hw => ?_, fun who e n s w hd' => ?_, fun e n p hd' => ?_,
    fun b m old p hd' => absurd (hdT.drops b m old p hd').1 (hno b)⟩
  · exact (barricade_keeps (hne e n hh)).2.1.trans (hdT.quiet e n hh hw)
  · obtain ⟨h1, h2⟩ := hkeeps e (hwrites e (by rw [hd']; rfl))
    have hk := (hdT.writes who e n s w hd').same barricade_store.1 barricade_store.2
    cases w with
    | deletesJournal | journalDeleted => exact ⟨h2 hk.1, h1 ▸ hk.2⟩
    | _ => simpa only [Writing.Knows, h1] using hk
  · have hk := hdT.prepares e n p hd'
    have h1 := (hkeeps e (hne e n (by rw [hd']; rfl))).1
    cases p <;> simp only [Preparing.Knows, h1] at hk ⊢ <;> exact hk

/-- **A drop begins** where no other is in progress. -/
theorem barricade_counts {p : Dropping} (hI : PoolOk P) (hopen : P.closed = false)
    (hC : CountOk owner session P)
    (halone : ∀ b, P.current = some b → (P.entries b).barrier = false)
    (hp : p = .closesSandbox ∨ p = .waitsQuiet) :
    Counts owner session P c P.barricade (.drops P.nextEntry P.clock P.current p) := by
  have hno : ∀ b, ¬P.Barred b := fun b hb => by cases (halone b hb.1).symm.trans hb.2.2
  -- what is being stored is the entry in the map
  have hwriting : ∀ e, (P.entries e).quiet = false → P.current = some e := fun e hq =>
    hI.live e ((hC.writing e hq).resolve_right fun ⟨_, b, hb⟩ => hno b hb)
  have hquiets : ∀ e, e ≠ P.nextEntry →
      (P.barricade.entries e).quiet = (P.entries e).quiet := fun e he => (barricade_keeps he).2.1
  have hold : ∀ e, (P.barricade.entries e).quiet = false →
      P.current = some e ∧ e ≠ P.nextEntry := by
    intro e hq
    have hne : e ≠ P.nextEntry := by
      rintro rfl
      rw [barricade_self] at hq
      simp at hq
    exact ⟨hwriting e (hquiets e hne ▸ hq), hne⟩
  refine ⟨⟨fun e hl => ?_, fun e hq => ?_, fun e₁ e₂ _ _ hq1 hq2 => ?_,
      fun _ h => absurd barricade_barred (h _)⟩,
    ⟨fun e n hh _ => ?_, by simp, by simp, fun b m old p' hd => ?_⟩,
    fun d hd _ hdT => barricade_countTask hI hopen hno hd hdT⟩
  · have hne : e ≠ P.nextEntry := by
      rintro rfl
      rw [barricade_self] at hl
      simp at hl
    rw [hquiets e hne]
    exact hC.free e ((barricade_keeps hne).1 ▸ hl)
  · obtain ⟨hcurrent, hne⟩ := hold e hq
    refine .inr ⟨?_, _, barricade_barred⟩
    rw [barricade_old hne hcurrent]
  · exact Option.some.inj ((hold e₁ hq1).1.symm.trans (hold e₂ hq2).1)
  · obtain ⟨rfl, -⟩ : P.nextEntry = e ∧ P.clock = n := by simpa [Task.holds] using hh
    rw [barricade_self]
    rfl
  · obtain ⟨rfl, -, rfl, rfl⟩ := Task.drops.inj hd
    refine ⟨barricade_barred, fun e _ hq => ⟨(hold e hq).1, by rcases hp with rfl | rfl <;> rfl⟩, ?_⟩
    have hk : (∀ e, P.current = some e → (P.barricade.entries e).quiet = true) →
        P.barricade.Below owner session (P.barricade.top P.current) := by
      intro hq
      have hb := hC.settled (fun e => ?_) hno
      · exact (hb.same barricade_store.2).mono (barricade_store.1.ge.trans (counter_le_top _ _))
      · by_contra hqe
        have hcurrent := hwriting e (by simpa using hqe)
        exact hqe (hquiets e (hI.known e hcurrent).ne ▸ hq e hcurrent)
    rcases hp with rfl | rfl <;> exact hk

/-! ## A drop goes on -/

section

variable {b m : ℕ} {old : Option ℕ} {p : Dropping}

/-- It goes on with what it knows. -/
theorem CountTask.drop_goes (hT : CountTask owner session P (.drops b m old p)) {Q : Pool}
    {p' : Dropping} (hentries : Q.entries = P.entries) (hcurrent : Q.current = P.current)
    (hold : ∀ e, (P.entries e).dropped = true → (P.entries e).quiet = false →
      old = some e ∧ p'.passed = false) (hk : p'.Knows owner session Q old) :
    CountTask owner session Q (.drops b m old p') := by
  refine ⟨fun e n hh _ => ?_, by simp, by simp, fun b' m' old' p1 hc => ?_⟩
  · obtain ⟨rfl, -⟩ : b = e ∧ m = n := by simpa [Task.holds] using hh
    rw [hentries]
    exact hT.quiet b m rfl rfl
  · obtain ⟨rfl, rfl, rfl, rfl⟩ := Task.drops.inj hc
    unfold Barred
    rw [hentries, hcurrent]
    exact ⟨(hT.drops b m old p rfl).1, hold, hk⟩

/-- Once it is past the entry it replaced, no dropped entry is being stored. -/
theorem CountTask.drop_passed (hT : CountTask owner session P (.drops b m old p))
    (hp : p.passed = true) (hd : (P.entries e).dropped = true) : (P.entries e).quiet = true := by
  by_contra hq
  have := ((hT.drops b m old p rfl).2.1 e hd (by simpa using hq)).2
  simp [hp] at this

/-- Nobody else is at the store then. -/
theorem CountTask.drop_alone (hT : CountTask owner session P (.drops b m old p)) (hI : PoolOk P)
    (hopen : ¬AllGone P) (hP : TaskOk P (.drops b m old p)) (hC : CountOk owner session P)
    (hp : p.passed = true) (hd : TaskOk P d) (hR : StampsApart (.drops b m old p) d)
    (hdT : CountTask owner session P d) :
    d.writesOn = none ∧ ∀ b' m' old' p', d ≠ .drops b' m' old' p' := by
  refine ⟨?_, ?_⟩
  · by_contra hw
    obtain ⟨e, he⟩ := Option.ne_none_iff_exists'.1 hw
    have := ((hC.alone hI hopen hd hP hT hR.symm he).2 b m old p rfl).1
    simp [hp] at this
  · rintro b' m' old' p' rfl
    have hb := (hT.drops b m old p rfl).1.1
    obtain rfl : b' = b := by simpa using (hdT.drops b' m' old' p' rfl).1.1.symm.trans hb
    exact hR.entry_ne hP hd rfl rfl

/-- **A drop returns**: nothing is being stored. -/
theorem unbar_counts (hI : PoolOk P) (hopen : ¬AllGone P) (hP : TaskOk P (.drops b m old p))
    (hC : CountOk owner session P) (hT : CountTask owner session P (.drops b m old p))
    (hp : p.passed = true) (hbelow : P.Below owner session P.counter) :
    Counts owner session P (.drops b m old p) (P.unbar b) .ended := by
  have hunbar : Tame b makesNone P (P.unbar b) := tame_unbar
  have hquiet := hT.quiet b m rfl rfl
  have hall : ∀ e, (P.entries e).quiet = true := by
    intro e
    by_contra hq
    rcases hC.writing e (by simpa using hq) with hlive | ⟨hd, -⟩
    · obtain rfl : e = b := by
        simpa using (hI.live e hlive).symm.trans (hT.drops b m old p rfl).1.1
      exact hq hquiet
    · exact hq (hT.drop_passed hp hd)
  have hquiets : ∀ e, ((P.unbar b).entries e).quiet = true := by
    refine quiet_of_others (e := b) (by simpa [unbar] using hquiet) fun e he => ?_
    rw [hunbar.others e he]
    exact hall e
  refine ⟨countOk_of_quiet hquiets hbelow, countTask_of rfl rfl, fun d hd hR hdT => ?_⟩
  obtain ⟨hnone, hdrops⟩ := hT.drop_alone hI hopen hP hC hp hd hR hdT
  refine ⟨fun e n _ _ => hquiets e, fun _ _ _ _ _ hd' => by simp [hd'] at hnone,
    fun e n p' hd' => ?_, fun b' m' old' p' hd' => absurd hd' (hdrops b' m' old' p')⟩
  have he : e ≠ b := by
    rintro rfl
    have hn : d.holds = some (e, n) := by rw [hd']; rfl
    exact hR.entry_ne hP hd rfl hn
  rw [hunbar.others e he]
  exact hdT.prepares e n p' hd'

/-- **A step of a drop keeps what is known of counters.** -/
theorem DropStep.counts (haborting : rules.aborting = false)
    (h : DropStep rules b m old P p P' c') (hI : PoolOk P) (hopen : ¬AllGone P)
    (hP : TaskOk P (.drops b m old p)) (hC : CountOk owner session P)
    (hT : CountTask owner session P (.drops b m old p)) :
    Counts owner session P (.drops b m old p) P' c' := by
  obtain ⟨hb, hold, hk⟩ := hT.drops b m old p rfl
  have hlast : ∀ {p' : Dropping}, p.passed = true → ∀ e, (P.entries e).dropped = true →
      (P.entries e).quiet = false → old = some e ∧ p'.passed = false := fun hp e hd hq => by
    cases hq.symm.trans (hT.drop_passed hp hd)
  cases h with
  | closed => exact counts_of hC (hT.drop_goes rfl rfl (fun e hd hq => ⟨(hold e hd hq).1, rfl⟩) hk)
  | quiet hq =>
    refine counts_of hC (hT.drop_goes rfl rfl (fun e hd hq' => ?_) (hk hq))
    cases hq'.symm.trans (hq e (hold e hd hq').1)
  | reads => exact counts_of hC (hT.drop_goes rfl rfl (hlast rfl) ⟨rfl, hk⟩)
  | @got v =>
    refine counts_of hC (hT.drop_goes rfl rfl (hlast rfl) ?_)
    obtain ⟨rfl, hbelow⟩ := hk
    cases old with
    | none => exact ⟨le_rfl, hbelow.mono (Nat.le_succ _)⟩
    | some e =>
      refine ⟨le_max_left _ _, hbelow.mono ?_⟩
      simp only [top, Option.elim_some]
      omega
  | deletes =>
    exact Alike.counts (alike_of rfl) hC
      (hT.drop_goes rfl rfl (hlast rfl) ⟨hk.1.trans (Nat.le_succ _), hk.2⟩)
  | @setsCounter k =>
    refine ⟨⟨hC.free, hC.writing, hC.single, fun _ hno => absurd hb (hno b)⟩,
      hT.drop_goes rfl rfl (hlast rfl) hk.2, fun d hd hR hdT => ?_⟩
    obtain ⟨hnone, hdrops⟩ := hT.drop_alone hI hopen hP hC rfl hd hR hdT
    exact ⟨hdT.quiet, fun _ _ _ _ _ hd' => by simp [hd'] at hnone, hdT.prepares,
      fun b' m' old' p' hd' => absurd hd' (hdrops b' m' old' p')⟩
  | returns => exact (unbar_counts hI hopen hP hC hT rfl hk).alike (alike_of rfl)
  | aborts h => cases haborting.symm.trans h

end

/-! ## Every step -/

theorem enter_counts (hI : PoolOk P) (hopen : ¬AllGone P) (hP : TaskOk P c)
    (hC : CountOk owner session P) (hT : CountTask owner session P c) (hc : c.works = some (e, n))
    (hw : c.writesOn = none) : Counts owner session P c (P.enter e n).1 (P.enter e n).2 :=
  leaves_enter.countsOf (piece_enter : Piece e n makesNone P _) hI hopen hP hC hT hc hw

/-- **A step keeps what is known of counters**, where no release is astray, no
write is cut off, no drop fails and none is called while another is in progress,
as long as the pool's entries are not marked by `close`. -/
theorem Step.counts (hstray : rules.stray = false) (hcutting : rules.cutting = false)
    (hcrossing : rules.crossing = false) (haborting : rules.aborting = false)
    (hs : Step rules owner session P c P' c') (hI : PoolOk P) (hP : TaskOk P c)
    (hopen : ¬AllGone P) (hC : CountOk owner session P) (hT : CountTask owner session P c) :
    AllGone P' ∨ Counts owner session P c P' c' := by
  have hcloses : ∀ e, c.closes ≠ some e := fun e hc => hopen (hP.closes e hc).1
  cases hs with
  | gives | timesOut | lost | releaseReturns | releaseVoid | dropRefused | closesEmpty | closeCancelled
  | closeWaitCancelled | closeWriteCancelled | queues | woken =>
    exact .inr (counts_of hC (countTask_of rfl rfl))
  | creates hopened hnone =>
    right
    have hfree : ((P.add .new).entries P.nextEntry).lock = none := by rw [add_self]; rfl
    have hadd : Keeps P .looks (P.add .new) .looks := add_keeps hI hopened hnone
    have hacquire : Keeps (P.add .new) .looks ((P.add .new).acquire P.nextEntry)
        (.acquired P.nextEntry P.clock) :=
      acquire_keeps hadd.poolOk (Nat.lt_succ_self _) hfree
    have hadd' : Counts owner session P .looks (P.add .new) .looks := add_counts hI hopen hC hnone
    have hacquire' := acquire_counts (c := .looks) hadd'.countOk hfree
    have hnot : ¬AllGone ((P.add .new).acquire P.nextEntry) := not_allGone hopened
    exact hadd'.trans hadd (hacquire'.trans hacquire (enter_counts hacquire.poolOk hnot
      hacquire.taskOk hacquire'.countOk hacquire'.countTask rfl rfl))
  | @acquires e hopened hcurrent hfree =>
    right
    have hacquire : Keeps P .looks (P.acquire e) (.acquired e P.clock) :=
      acquire_keeps hI (hI.known e hcurrent) hfree
    have hacquire' := acquire_counts (c := .looks) hC hfree
    have hnot : ¬AllGone (P.acquire e) := not_allGone hopened
    exact hacquire'.trans hacquire (enter_counts hacquire.poolOk hnot hacquire.taskOk
      hacquire'.countOk hacquire'.countTask rfl rfl)
  | granted hfree => exact .inr (acquire_counts hC hfree)
  | resumes => exact .inr (enter_counts hI hopen hP hC hT rfl rfl)
  | prepares h => exact .inr (h.counts hI hopen hP hC hT)
  | @releases e e' n s hcurrent hbarrier hlocked hown =>
    obtain rfl := entry_of_release hI.home hP.home hown
    have hpiece : Piece e' n makesNone P (P.releases .release e' n) := piece_releases
    exact .inr (leaves_releases.countsOf hpiece hI hopen hP hC hT rfl rfl)
  | stray h => cases hstray.symm.trans h
  | @writes P' who e n s w out h =>
    cases who with
    | release => exact .inr (h.counts hcutting (.inl rfl) hI hopen hP hC hT)
    | prepare => exact .inr (h.counts hcutting (.inr rfl) hI hopen hP hC hT)
    | stray => exact absurd rfl (hP.notStray e n s w)
    | close => exact absurd rfl (hcloses e)
  | dropBegins hopened hquiet halone =>
    refine .inr (Counts.alike (barricade_counts hI hopened hC (halone hcrossing) ?_) (alike_of rfl))
    split
    · exact .inl rfl
    · exact .inr rfl
  | drops h => exact .inr (h.counts haborting hI hopen hP hC hT)
  | closeBegins => exact .inr (Alike.counts (alike_of rfl) hC (countTask_of rfl rfl))
  | closeMarks hcurrent => exact .inl (markGone_allGone hI (hP.marks rfl) hcurrent)
  | @closeWaits e | @closeWoken e | @closeSkips e | @closeWrites e | @closeClears e =>
    exact absurd rfl (hcloses e)

/-- The environment keeps what is known of counters. -/
theorem Env.counts (henv : Env rules owner session P P') (hI : PoolOk P) (hopen : ¬AllGone P)
    (hC : CountOk owner session P) : CountOk owner session P' ∧
      ∀ d, TaskOk P d → CountTask owner session P d → CountTask owner session P' d := by
  have halike : Alike owner session P P' → CountOk owner session P' ∧
      ∀ d, TaskOk P d → CountTask owner session P d → CountTask owner session P' d :=
    fun h => ⟨h.countOk hC, fun _ _ => h.countTask⟩
  -- a value that is not one of this session's journals
  have hother : ∀ v : Value, (∀ j, v ≠ .journal owner session j) →
      Pool.Below owner session { P with ever := P.ever ++ [v] } = P.Below owner session := by
    intro v hv
    funext k
    refine propext (forall_congr' fun j => ?_)
    have hne : Value.journal owner session j ≠ v := fun h => hv j h.symm
    simp [hne]
  cases henv with
  | @evicts e hcurrent hfree =>
    have htame : Tame e makesNone P (P.evict e) := tame_forget.trans tame_clearSandbox
    have hbare : (P.entries e).barrier = true → (P.entries e).gone = true := by
      intro hb
      by_contra hlive
      exact (hI.barred e hb (by simpa using hlive)).2 hfree
    have hq := hC.free e hfree
    have hq' : ((P.evict e).entries e).quiet = true := by simpa [evict] using hq
    refine ⟨htame.toLocal.countOk hC hbare hq' fun hall hno =>
      hC.settled (quiet_of_others hq hall) hno, fun d hd hdT => ?_⟩
    refine hdT.aside htame.toLocal hd hopen hbare (fun n hd' => ?_) (fun _ _ => hq') ?_ ?_
    · have := hd.holds e n hd'
      simp [hfree] at this
    · exact fun _ _ _ _ _ _ hk => hk.same rfl rfl
    · refine fun _ _ _ _ _ hk => hk.rises htame.toLocal hq rfl rfl ?_
      simp [evict]
  | dies | expires | tampers => exact halike (alike_of rfl)
  | others j howner hsession hne =>
    refine halike (alike_of (hother _ fun j' h => hne ?_))
    obtain ⟨rfl, rfl, -⟩ := Value.journal.inj h
    rfl
  | counters digits => exact halike (alike_of (hother _ (by simp)))

theorem countOk_new : CountOk owner session .new where
  free e h := by simp
  writing e h := by simp at h
  single e e' h := by simp at h
  settled _ _ j hj := by simp at hj

end

end Pydeno.Sessions
