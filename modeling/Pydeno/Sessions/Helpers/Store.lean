import Pydeno.Sessions.Helpers.Exclusion
/-!
# What a step does to the store

Only `_persist` and `drop` write to the store, and only a task of `_restore`
has read a journal from it. The pieces of the other steps leave their task with
nothing read (`Task.Blank`) and the store as it was; an entry that is gone
stays gone.
-/

namespace Pydeno.Sessions

open Pool

/-- The drop is past the entry it replaced. -/
def Dropping.passed : Dropping → Bool
  | .closesSandbox => false
  | .waitsQuiet => false
  | _ => true

/-- A task that has read no journal and written none, and begins with the
counter of its entry. -/
def Task.Blank (P : Pool) : Task → Prop
  | .prepares e _ (.readsFloor c) => c = (P.entries e).counter
  | .prepares _ _ (.readsJournal _) => False
  | .prepares _ _ (.gotJournal _ _) => False
  | .prepares _ _ (.loads _ _ _ _) => False
  | .writes _ e _ _ (.readsCounter c) => c = (P.entries e).counter + 1
  | .writes _ _ _ _ _ => False
  | _ => True

/-- **What a piece leaves**: nothing read, the store, the counter of its entry and
the restored sessions as they were. -/
structure Leaves (e : ℕ) (P : Pool) (r : Pool × Task) : Prop extends SameStore P r.1 where
  blank : r.2.Blank r.1
  restored : r.1.restored = P.restored
  counts : (r.1.entries e).counter = (P.entries e).counter

section

variable {e n : ℕ} {P P' : Pool} {s : Sandbox}

theorem leaves_of {r : Pool × Task} (hblank : r.2.Blank r.1 := by trivial)
    (hstore : SameStore P r.1 := by exact ⟨rfl, rfl, rfl, rfl, rfl, rfl⟩)
    (hrestored : r.1.restored = P.restored := by rfl)
    (hcounts : (r.1.entries e).counter = (P.entries e).counter := by simp [lease]) : Leaves e P r :=
  ⟨hstore, hblank, hrestored, hcounts⟩

theorem Leaves.after {r : Pool × Task} (hr : Leaves e P' r)
    (h : SameStore P P' := by exact ⟨rfl, rfl, rfl, rfl, rfl, rfl⟩)
    (hrestored : P'.restored = P.restored := by rfl)
    (hcounts : (P'.entries e).counter = (P.entries e).counter := by simp) : Leaves e P r :=
  { h.trans hr.toSameStore with
    blank := hr.blank
    restored := hr.restored.trans hrestored
    counts := hr.counts.trans hcounts }

theorem leaves_ready : Leaves e P (P.ready e n) := by
  unfold ready
  split
  · exact leaves_of
  · exact leaves_of

theorem leaves_enter : Leaves e P (P.enter e n) := by
  unfold enter
  split
  · exact leaves_of
  · split <;> exact leaves_of

theorem leaves_persist {who : Who} : Leaves e P (P.persist who e n s) :=
  leaves_of (by simp [Task.Blank])

theorem leaves_afterCheck {v : ℕ} : Leaves e P (P.afterCheck e n s v) := by
  unfold afterCheck
  split
  · exact leaves_of
  · split
    · exact leaves_ready.after
    · split
      · exact leaves_persist
      · exact leaves_ready

theorem leaves_prepareFails : Leaves e P (P.prepareFails e, .ended) := by
  unfold prepareFails
  split <;> exact leaves_of

theorem leaves_install {origin : Option Journal} : Leaves e P (P.install e n origin) := by
  simp only [install]
  split <;> exact leaves_of

theorem leaves_releases {who : Who} : Leaves e P (P.releases who e n) := by
  unfold releases
  split
  · exact leaves_of
  · split
    · exact leaves_of
    · exact leaves_persist

theorem leaves_persisted {who : Who} {returned : Bool} :
    Leaves e P (P.persisted who e n s returned) := by
  cases who with
  | release | stray =>
    simp only [persisted]
    split <;> exact leaves_of
  | prepare =>
    simp only [persisted]
    split
    · split
      · exact leaves_of
      · split <;> exact leaves_ready.after
    · exact leaves_prepareFails.after
  | close =>
    simp only [persisted]
    exact leaves_of

/-- What follows `_write` leaves the store alone and goes nowhere. -/
theorem wroteAll_same (spent : Bool) : SameStore P (P.wroteAll e spent).1 := by
  unfold wroteAll
  split <;> exact ⟨rfl, rfl, rfl, rfl, rfl, rfl⟩

theorem wroteAll_goes (spent : Bool) {w : Writing} : (P.wroteAll e spent).2 ≠ .goes w := by
  unfold wroteAll
  split <;> simp

theorem wroteAll_counter (spent : Bool) :
    ((P.wroteAll e spent).1.entries e).counter = (P.entries e).counter := by
  unfold wroteAll
  split <;> simp [spend]

end

/-! ## An entry that is gone stays gone -/

section

variable {rules : Rules} {owner session : List ℕ} {e n : ℕ} {P P' : Pool} {c c' : Task}

theorem Local.gone_mono (h : Local e P P') {e' : ℕ} (hgone : (P.entries e').gone = true) :
    (P'.entries e').gone = true := by
  by_cases he : e' = e
  · subst he
    exact h.gone hgone
  · rw [h.others e' he]
    exact hgone

/-- The flags that a step on one entry leaves. -/
theorem Local.flags (h : Local e P P') (e' : ℕ) : (P'.entries e').dropped = (P.entries e').dropped ∧
      (P'.entries e').droppedAt = (P.entries e').droppedAt := by
  by_cases he : e' = e
  · subst he
    exact ⟨h.dropped, h.droppedAt⟩
  · rw [h.others e' he]
    exact ⟨rfl, rfl⟩

/-- What is gone stays so, and a pool that is closed gets no entries. -/
structure Ages (P P' : Pool) : Prop where
  gone : ∀ e, e < P.nextEntry → (P.entries e).gone = true → (P'.entries e).gone = true
  closed : P.closed = true → P'.closed = true ∧ P'.nextEntry = P.nextEntry

theorem Local.ages (h : Local e P P') : Ages P P' :=
  ⟨fun _ _ => h.gone_mono, fun hc => ⟨h.closed.trans hc, h.nextEntry⟩⟩

/-- **A step leaves what is gone.** -/
theorem Step.ages (hs : Step rules owner session P c P' c') : Ages P P' := by
  cases hs with
  | creates hopen hnone =>
    have hown : Own P.nextEntry P.clock ((P.add .new).acquire P.nextEntry) .looks _ _ :=
      own_enter
    refine ⟨fun e he hgone => hown.toLocal.gone_mono ?_, fun hc => by cases hopen.symm.trans hc⟩
    rw [acquire_gone, add_other he.ne]
    exact hgone
  | @acquires e' hopen hcurrent hfree =>
    have hown : Own e' P.clock (P.acquire e') .looks _ _ := own_enter
    refine ⟨fun e _ hgone => hown.toLocal.gone_mono ?_, fun hc => by cases hopen.symm.trans hc⟩
    rw [acquire_gone]
    exact hgone
  | granted hfree => exact ⟨fun e _ hgone => (acquire_gone e).trans hgone, fun hc => ⟨hc, rfl⟩⟩
  | @resumes e' n =>
    have hown : Own e' n P .looks _ _ := own_enter
    exact hown.toLocal.ages
  | @prepares P' e' n p c' h =>
    have hown : Own e' n P .looks P' c' := h.own
    exact hown.toLocal.ages
  | @releases e0 e' n s hcurrent hbarrier hlocked hown =>
    have hown : Own e' n P .looks _ _ := own_releases
    exact hown.toLocal.ages
  | @stray e' n hstray hcurrent hbarrier hlocked =>
    have htame : Tame e' makesNone P (P.releases .stray e' n).1 := tame_releases
    exact htame.toLocal.ages
  | writes h => exact h.wroteLocal.ages
  | dropBegins hopen =>
    refine ⟨fun e he hgone => ?_, fun hc => by cases hopen.symm.trans hc⟩
    by_cases hold : P.current = some e
    · rw [show ({ P.barricade with dead := _ } : Pool).entries e = _ from barricade_old he.ne hold]
    · rw [show ({ P.barricade with dead := _ } : Pool).entries e = _ from
        barricade_other he.ne hold]
      exact hgone
  | @drops P' b n old p c h =>
    rcases h.cases with ⟨p', -, hsame⟩ | ⟨-, hentries, -, hnext, -, hclosed, -⟩
    · exact ⟨fun e _ hgone => by rw [hsame.entries]; exact hgone,
        fun hc => ⟨hsame.closed.trans hc, hsame.nextEntry⟩⟩
    · refine ⟨fun e _ hgone => ?_, fun hc => ⟨hclosed.trans hc, hnext⟩⟩
      rw [hentries]
      exact local_unbar.gone_mono hgone
  | closeBegins => exact ⟨fun _ _ hgone => hgone, fun _ => ⟨rfl, rfl⟩⟩
  | @closeMarks e' hcurrent =>
    refine ⟨fun e _ hgone => ?_, fun hc => ⟨hc, rfl⟩⟩
    by_cases he : e = e'
    · simp [he]
    · simpa [he] using hgone
  | @closeWrites e' k s hgoes hsandbox hlive =>
    have htame : Tame e' makesNone P (P.modify e' ({ · with quiet := false })) :=
      tame_quiet false
    exact htame.toLocal.ages
  | @closeClears e' =>
    have hlocal : Local e' { P with current := none }
        ({ P with current := none }.clearSandbox e') := local_clearSandbox
    exact ⟨fun _ _ => hlocal.gone_mono, fun hc => ⟨hc, rfl⟩⟩
  | _ => exact ⟨fun _ _ hgone => hgone, fun hc => ⟨hc, rfl⟩⟩

theorem Env.gone_mono (henv : Env rules owner session P P') {e : ℕ}
    (hgone : (P.entries e).gone = true) : (P'.entries e).gone = true := by
  cases henv with
  | evicts => exact (local_forget.trans local_clearSandbox).gone_mono hgone
  | _ => exact hgone

end

end Pydeno.Sessions
