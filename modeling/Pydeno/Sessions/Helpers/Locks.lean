import Pydeno.Sessions.Helpers.Pieces
/-!
# Locks and their holders

A sandbox stays in the entry it was made for (`Home`), so that a release works
on the entry of its lease. What a step does about locks follows: one that is
held afterwards is held by the task that moved, or was held before by another
(`Covers`), and leases are numbered as they begin (`Stamps`).
-/

namespace Pydeno.Sessions

open Interleaving

/-! ## Sandboxes stay in their entry -/

/-- What is in an entry was made for it. -/
def Home (P : Pool) : Prop := ∀ e s, (P.entries e).sandbox = some s → s.entry = e

/-- So is what a lease has. -/
def Task.Home (c : Task) : Prop :=
  ∀ e n s, c.holds = some (e, n) → c.session = some s → s.entry = e

section

variable {rules : Rules} {owner session : List ℕ} {e n : ℕ} {P P' : Pool} {c c' : Task}

/-- The sandboxes of an entry come from one that has them. -/
theorem Home.mono (h : Home P)
    (hs : ∀ e s, (P'.entries e).sandbox = some s → (P.entries e).sandbox = some s ∨ s.entry = e) :
    Home P' :=
  fun e s he => (hs e s he).elim (h e s) id

theorem Local.home (h : Local e P P') (hhome : Home P)
    (hs : ∀ s, (P'.entries e).sandbox = some s → (P.entries e).sandbox = some s ∨ s.entry = e) :
    Home P' := by
  refine hhome.mono fun e' s hs' => ?_
  by_cases he : e' = e
  · subst he
    exact hs s hs'
  · rw [h.others e' he] at hs'
    exact .inl hs'

theorem Own.homes (h : Own e n P c P' c') (hhome : Home P) (hc : c.Home)
    (hce : c.session = none ∨ c.holds = some (e, n)) : Home P' ∧ c'.Home := by
  have hpool : Home P' := h.toLocal.home hhome h.home
  refine ⟨hpool, fun e' n' s hh' hs => ?_⟩
  have he : e' = e := by
    rcases h.holds with ⟨hh, -⟩ | ⟨hh, -⟩
    · rw [hh'] at hh
      simp only [Option.some.injEq, Prod.mk.injEq] at hh
      exact hh.1
    · simp [hh'] at hh
  rw [he]
  rcases h.session s hs with h1 | h1
  · exact hpool e s h1
  · rcases hce with h2 | h2
    · simp [h1] at h2
    · exact hc e n s h2 h1

/-- A task that has no session. -/
theorem Task.home_of_none (h : c.session = none) : c.Home := fun e n s _ hs => by simp [h] at hs

theorem Tame.homes (h : Tame e makesNone P P') (hhome : Home P) : Home P' :=
  h.toLocal.home hhome fun s hs => (h.sandbox s hs).imp id False.elim

theorem Home.acquire (h : Home P) (e : ℕ) : Home (P.acquire e) := by
  refine h.mono fun e' s he => .inl ?_
  rw [acquire_entry] at he
  exact he

theorem Home.markGone (h : Home P) (e : ℕ) : Home (P.markGone e) := by
  refine h.mono fun e' s he => .inl ?_
  rw [markGone_entry] at he
  exact he

theorem Home.add (h : Home P) : Home (P.add .new) := by
  refine h.mono fun e s he => ?_
  rcases add_entry P e with hnew | hold
  · rw [hnew] at he
    simp at he
  · rw [hold] at he
    exact .inl he

theorem Home.barricade (h : Home P) : Home P.barricade := by
  refine h.mono fun e s he => ?_
  by_cases hne : e = P.nextEntry
  · rw [hne, barricade_self] at he
    simp at he
  · obtain ⟨-, -, hs | hs⟩ := barricade_keeps hne
    · rw [hs] at he
      exact .inl he
    · rw [hs] at he
      simp at he

/-- What `_persist` does keeps them. -/
theorem WriteEffect.homes {out : Written} (h : WriteEffect e P P' out) (hhome : Home P) :
    Home P' := by
  refine h.toLocal.home hhome fun s hs => .inl ?_
  rcases h.sandbox with h1 | h1
  · rw [← h1]
    exact hs
  · rw [h1] at hs
    simp at hs

theorem WriteStep.homes {who : Who} {s : Sandbox} {w : Writing} {out : Written}
    (h : WriteStep rules owner session e n s P w P' out) (hhome : Home P)
    (hc : (Task.writes who e n s w).Home) :
    Home (P'.wrote who e n s out).1 ∧ (P'.wrote who e n s out).2.Home := by
  have hpool' := h.effect.homes hhome
  have hother : who = .stray ∨ who = .close →
      Home (P'.wrote who e n s out).1 ∧ (P'.wrote who e n s out).2.Home := by
    intro hwho
    obtain ⟨htame, -, hnone⟩ := unleased_wrote hwho
    exact ⟨htame.homes hpool', Task.home_of_none hnone⟩
  cases who with
  | release => exact Own.homes (h.own (.inl rfl)) hhome hc (.inr rfl)
  | prepare => exact Own.homes (h.own (.inr rfl)) hhome hc (.inr rfl)
  | stray => exact hother (.inl rfl)
  | close => exact hother (.inr rfl)

/-- A release works on the entry of its lease. -/
theorem entry_of_release {e' : ℕ} {s : Sandbox} (hhome : Home P) (hc : (Task.leased e n s).Home)
    (hown : (P.entries e').sandbox = some s ∨ (e' = e ∧ (P.entries e).lock = some n)) : e' = e := by
  rcases hown with h | ⟨h, -⟩
  · exact (hhome e' s h).symm.trans (hc e n s rfl rfl)
  · exact h

/-- **A step keeps sandboxes in their entries.** -/
theorem Step.homes (hs : Step rules owner session P c P' c') (hhome : Home P)
    (hc : c.Home) : Home P' ∧ c'.Home := by
  cases hs with
  | creates hopen hnone => exact own_enter.homes (hhome.add.acquire _) hc (.inl rfl)
  | acquires hopen hcurrent hfree => exact own_enter.homes (hhome.acquire _) hc (.inl rfl)
  | granted hfree => exact ⟨hhome.acquire _, Task.home_of_none rfl⟩
  | resumes => exact own_enter.homes hhome hc (.inl rfl)
  | prepares h => exact h.own.homes hhome hc (.inl rfl)
  | releases hcurrent hbarrier hlocked hown =>
    obtain rfl := entry_of_release hhome hc hown
    exact own_releases.homes hhome hc (.inr rfl)
  | stray =>
    refine ⟨tame_releases.homes hhome, Task.home_of_none ?_⟩
    unfold Pool.releases
    split
    · rfl
    · split <;> rfl
  | writes h => exact h.homes hhome hc
  | dropBegins => exact ⟨hhome.barricade, Task.home_of_none rfl⟩
  | drops h =>
    rcases h.cases with ⟨p', rfl, hsame⟩ | ⟨rfl, hentries, -⟩
    · refine ⟨fun e s he => hhome e s ?_, Task.home_of_none rfl⟩
      rw [← hsame.entries]
      exact he
    · refine ⟨fun e s he => ?_, Task.home_of_none rfl⟩
      rw [hentries] at he
      exact tame_unbar.homes hhome e s he
  | closeMarks => exact ⟨hhome.markGone _, Task.home_of_none rfl⟩
  | closeWrites => exact ⟨(tame_quiet false).homes hhome, Task.home_of_none rfl⟩
  | @closeClears e =>
    have hnone : Home { P with current := none } := hhome
    exact ⟨tame_clearSandbox.homes hnone, Task.home_of_none rfl⟩
  | _ => exact ⟨hhome, Task.home_of_none rfl⟩

theorem Env.homes (henv : Env rules owner session P P') (hhome : Home P) : Home P' := by
  cases henv with
  | evicts => exact (tame_forget.trans tame_clearSandbox).homes hhome
  | _ => exact hhome

/-- **In every run.** -/
theorem home_of_reachable {sys : Sys Pool Task} (h : Reachable rules owner session sys) :
    Home sys.shared ∧ ∀ c ∈ sys.parts, c.Home := by
  refine reachable_parts (I := Home) (P := fun _ => Task.Home) ?_ ?_ ?_ ?_ ?_ ?_ h
  · intro e s he
    simp at he
  · exact fun hs hI hc => hs.homes hI hc
  · exact fun _ _ _ hd => hd
  · intro P c hjoin _
    cases hjoin <;> exact Task.home_of_none rfl
  · exact fun henv hhome => henv.homes hhome
  · exact fun _ _ hd => hd

end

/-! ## A lock is held by one task -/

/-- **What a step does about locks**: one that is held afterwards is held by
its task, or was held before by another. -/
def Covers (P : Pool) (c : Task) (P' : Pool) (c' : Task) : Prop :=
  ∀ k : ℕ × ℕ, (P'.entries k.1).lock = some k.2 →
    c'.holds = some k ∨ ((P.entries k.1).lock = some k.2 ∧ c.holds ≠ some k)

/-- A lease ends and keeps its lock: `_release` has found no entry to unlock. -/
def Outlived (rules : Rules) (P : Pool) (c : Task) (P' : Pool) : Prop :=
  rules.outliving = true ∧ P' = P ∧ ∃ e n s, c = .leased e n s ∧
    ∀ e', P.current = some e' → (P.entries e').barrier = false →
      (P.entries e').sandbox = some s → (P.entries e').lock = none

/-- The number of a lease is the clock's as it begins. -/
def Stamps (P : Pool) (c : Task) (P' : Pool) (c' : Task) : Prop :=
  P.clock ≤ P'.clock ∧ ∀ e n, c'.holds = some (e, n) →
    (∃ e', c.holds = some (e', n)) ∨ (n = P.clock ∧ P.clock < P'.clock)

section

variable {rules : Rules} {owner session : List ℕ} {e n : ℕ} {P P' : Pool} {c c' : Task}

theorem Own.covers (h : Own e n P c P' c') (hc : c.holds = some (e, n)) : Covers P c P' c' := by
  rintro ⟨e', n'⟩ hlock
  by_cases he : e' = e
  · subst he
    rcases h.holds with ⟨hh, hsame⟩ | ⟨-, hnone⟩
    · by_cases hn : n' = n
      · subst hn
        exact .inl hh
      · refine .inr ⟨hsame ▸ hlock, ?_⟩
        rw [hc]
        simpa using fun h => hn h.symm
    · simp [hnone] at hlock
  · rw [h.others e' he] at hlock
    refine .inr ⟨hlock, ?_⟩
    rw [hc]
    simpa using fun h _ => he h.symm

theorem Own.stamps {e0 : ℕ} (h : Own e n P c P' c') (hc : c.holds = some (e0, n)) :
    Stamps P c P' c' := by
  refine ⟨h.clock.ge, fun e' n' hc' => .inl ⟨e0, ?_⟩⟩
  rcases h.holds with ⟨hh, -⟩ | ⟨hh, -⟩
  · rw [hh] at hc'
    obtain ⟨-, rfl⟩ : e = e' ∧ n = n' := by simpa using hc'
    exact hc
  · simp [hh] at hc'

theorem Local.locks (h : Local e P P') (e' : ℕ) :
    (P'.entries e').lock = (P.entries e').lock ∨ (P'.entries e').lock = none := by
  by_cases he : e' = e
  · subst he
    exact h.lock
  · rw [h.others e' he]
    exact .inl rfl

/-- A task without a lease takes no lock. -/
theorem covers_of_locks (hc : c.holds = none)
    (h : ∀ e, (P'.entries e).lock = (P.entries e).lock ∨ (P'.entries e).lock = none) :
    Covers P c P' c' := by
  rintro ⟨e, n⟩ hlock
  refine .inr ⟨?_, by simp [hc]⟩
  rcases h e with h1 | h1
  · exact h1 ▸ hlock
  · simp [h1] at hlock

theorem stamps_of_none (hclock : P.clock ≤ P'.clock) (hc' : c'.holds = none) : Stamps P c P' c' :=
  ⟨hclock, fun _ _ h => by simp [hc'] at h⟩

/-- **A lock is taken**, and what follows is the new lease's. -/
theorem Own.covers_acquire {pool₁ : Pool} (h : Own e P.clock (pool₁.acquire e) c P' c')
    (hclock : pool₁.clock = P.clock)
    (hothers : ∀ e', e' ≠ e → (pool₁.entries e').lock = (P.entries e').lock)
    (hc : c.holds = none) : Covers P c P' c' ∧ Stamps P c P' c' := by
  have hlock1 : ((pool₁.acquire e).entries e).lock = some P.clock := by
    rw [acquire_self, hclock]
  refine ⟨?_, ?_, ?_⟩
  · rintro ⟨e', n'⟩ hlock
    by_cases he : e' = e
    · subst he
      rcases h.holds with ⟨hh, hsame⟩ | ⟨-, hnone⟩
      · rw [hsame, hlock1] at hlock
        obtain rfl : P.clock = n' := by simpa using hlock
        exact .inl hh
      · simp [hnone] at hlock
    · rw [h.others e' he, acquire_other he, hothers e' he] at hlock
      exact .inr ⟨hlock, by simp [hc]⟩
  · rw [h.clock]
    simp [Pool.acquire, hclock]
  · intro e' n' hc'
    refine .inr ⟨?_, by rw [h.clock]; simp [Pool.acquire, hclock]⟩
    rcases h.holds with ⟨hh, -⟩ | ⟨hh, -⟩
    · rw [hh] at hc'
      obtain ⟨-, rfl⟩ : e = e' ∧ P.clock = n' := by simpa using hc'
      rfl
    · simp [hh] at hc'

theorem WriteStep.locks {who : Who} {s : Sandbox} {w : Writing} {out : Written}
    (h : WriteStep rules owner session e n s P w P' out) :
    Stamps P (.writes who e n s w) (P'.wrote who e n s out).1 (P'.wrote who e n s out).2 ∧
      Covers P (.writes who e n s w) (P'.wrote who e n s out).1
        (P'.wrote who e n s out).2 := by
  have hother : who = .stray ∨ who = .close → (Task.writes who e n s w).holds = none →
      Stamps P (.writes who e n s w) (P'.wrote who e n s out).1 (P'.wrote who e n s out).2 ∧
        Covers P (.writes who e n s w) (P'.wrote who e n s out).1
          (P'.wrote who e n s out).2 := by
    intro hwho hc
    obtain ⟨-, hnone, -⟩ : Tame e makesNone P' _ ∧ _ := unleased_wrote hwho
    exact ⟨stamps_of_none h.wroteLocal.clock.ge hnone, covers_of_locks hc h.wroteLocal.locks⟩
  cases who with
  | release => exact ⟨(h.own (.inl rfl)).stamps rfl, (h.own (.inl rfl)).covers rfl⟩
  | prepare => exact ⟨(h.own (.inr rfl)).stamps rfl, (h.own (.inr rfl)).covers rfl⟩
  | stray => exact hother (.inl rfl) rfl
  | close => exact hother (.inr rfl) rfl

theorem DropStep.locks {b : ℕ} {old : Option ℕ} {p : Dropping}
    (h : DropStep rules b n old P p P' c') :
    Stamps P (.drops b n old p) P' c' ∧ Covers P (.drops b n old p) P' c' := by
  rcases h.cases with ⟨p', rfl, hsame⟩ | ⟨rfl, hentries, -, -, hclock, -⟩
  · refine ⟨⟨hsame.clock.ge, fun e n' hc' => .inl ⟨b, ?_⟩⟩, fun k hlock => ?_⟩
    · obtain ⟨-, rfl⟩ : b = e ∧ n = n' := by simpa [Task.holds] using hc'
      rfl
    · rw [hsame.entries] at hlock
      by_cases hk : k = (b, n)
      · exact .inl (by rw [hk]; rfl)
      · exact .inr ⟨hlock, by simpa [Task.holds] using fun h => hk h.symm⟩
  · refine ⟨stamps_of_none hclock rfl, ?_⟩
    rintro ⟨e, n'⟩ hlock
    by_cases he : e = b
    · simp [hentries, he, Pool.unbar] at hlock
    · refine .inr ⟨?_, by simpa [Task.holds] using fun h _ => he h.symm⟩
      have hunbar : Local b P (P.unbar b) := local_unbar
      rw [hentries, hunbar.others e he] at hlock
      exact hlock

/-- **A step and the locks.** -/
theorem Step.locks (hs : Step rules owner session P c P' c') (hhome : Home P) (hc : c.Home) :
    Stamps P c P' c' ∧ (rules.losing = false → Covers P c P' c' ∨ Outlived rules P c P') := by
  have hidle : ∀ {c c' : Task}, c.holds = none → c'.holds = none → Stamps P c P c' ∧
      (rules.losing = false → Covers P c P c' ∨ Outlived rules P c P) :=
    fun h h' => ⟨stamps_of_none le_rfl h', fun _ => .inl (covers_of_locks h fun _ => .inl rfl)⟩
  cases hs with
  | creates hopen hnone =>
    have hown : Own P.nextEntry P.clock ((P.add .new).acquire P.nextEntry) .looks _ _ :=
      own_enter
    obtain ⟨hcovers, hstamps⟩ := hown.covers_acquire rfl (fun e' he => by rw [add_other he]) rfl
    exact ⟨hstamps, fun _ => .inl hcovers⟩
  | @acquires e hopen hcurrent hfree =>
    have hown : Own e P.clock (P.acquire e) .looks _ _ := own_enter
    obtain ⟨hcovers, hstamps⟩ := hown.covers_acquire rfl (fun _ _ => rfl) rfl
    exact ⟨hstamps, fun _ => .inl hcovers⟩
  | @granted e hfree =>
    have hown : Own e P.clock (P.acquire e) (.waits e) (P.acquire e) (.acquired e P.clock) :=
      { Local.refl with
        of := .acquired, holds := .inl ⟨rfl, rfl⟩, home := fun _ h => .inl h, leased := by simp
        session := by simp [Task.session]
        writesOn := .inl ⟨rfl, .inl rfl⟩ }
    obtain ⟨hcovers, hstamps⟩ := hown.covers_acquire rfl (fun _ _ => rfl) rfl
    exact ⟨hstamps, fun _ => .inl hcovers⟩
  | resumes => exact ⟨own_enter.stamps rfl, fun _ => .inl (own_enter.covers rfl)⟩
  | lost hlosing => exact ⟨stamps_of_none le_rfl rfl, fun h => by cases h.symm.trans hlosing⟩
  | prepares h => exact ⟨h.own.stamps rfl, fun _ => .inl (h.own.covers rfl)⟩
  | releases hcurrent hbarrier hlocked hown =>
    obtain rfl := entry_of_release hhome hc hown
    exact ⟨own_releases.stamps rfl, fun _ => .inl (own_releases.covers rfl)⟩
  | @releaseReturns e n s houtliving hvoid =>
    exact ⟨stamps_of_none le_rfl rfl, fun _ => .inr ⟨houtliving, rfl, e, n, s, rfl, hvoid⟩⟩
  | @stray e n hstray hcurrent hbarrier hlocked =>
    have htame : Tame e makesNone P (P.releases .stray e n).1 := tame_releases
    refine ⟨stamps_of_none htame.clock.ge ?_, fun _ => .inl (covers_of_locks rfl htame.locks)⟩
    unfold Pool.releases
    split
    · rfl
    · split <;> rfl
  | writes h | drops h => exact ⟨h.locks.1, fun _ => .inl h.locks.2⟩
  | dropBegins hopen hquiet halone =>
    refine ⟨⟨Nat.le_succ _, fun e n hc' => .inr ⟨?_, Nat.lt_succ_self _⟩⟩, fun _ => .inl ?_⟩
    · obtain ⟨-, rfl⟩ : P.nextEntry = e ∧ P.clock = n := by simpa [Task.holds] using hc'
      rfl
    · rintro ⟨e, n⟩ hlock
      by_cases he : e = P.nextEntry
      · subst he
        rw [show P.barricade.entries _ = _ from barricade_self P] at hlock
        obtain rfl : P.clock = n := by simpa using hlock
        exact .inl rfl
      · rw [(barricade_keeps he).1] at hlock
        exact .inr ⟨hlock, by simp [Task.holds]⟩
  | closeBegins =>
    exact ⟨stamps_of_none le_rfl rfl, fun _ => .inl (covers_of_locks rfl fun _ => .inl rfl)⟩
  | closeMarks =>
    refine ⟨stamps_of_none le_rfl rfl, fun _ => .inl (covers_of_locks rfl fun e' => .inl ?_)⟩
    rw [markGone_entry]
  | @closeWrites e k s hgoes hsandbox hlive =>
    have htame : Tame e makesNone P (P.modify e ({ · with quiet := false })) := tame_quiet false
    exact ⟨stamps_of_none le_rfl rfl, fun _ => .inl (covers_of_locks rfl htame.locks)⟩
  | @closeClears e =>
    have htame : Tame e makesNone { P with current := none }
        ({ P with current := none }.clearSandbox e) := tame_clearSandbox
    exact ⟨stamps_of_none le_rfl rfl, fun _ => .inl (covers_of_locks rfl htame.locks)⟩
  | _ => exact hidle rfl rfl

/-- The environment takes no lock. -/
theorem Env.locks (henv : Env rules owner session P P') :
    P'.clock = P.clock ∧ ∀ e, (P'.entries e).lock = (P.entries e).lock := by
  cases henv with
  | @evicts e hcurrent hfree =>
    refine ⟨rfl, fun e' => ?_⟩
    by_cases he : e' = e <;> simp [Pool.evict, he]
  | _ => exact ⟨rfl, fun _ => rfl⟩

end

/-- No two tasks have the same lease. -/
def StampsApart (c d : Task) : Prop :=
  ∀ e n e' n', c.holds = some (e, n) → d.holds = some (e', n') → n ≠ n'

/-- The number of a lease lies behind the clock. -/
def Task.Stamped (P : Pool) (c : Task) : Prop := ∀ e n, c.holds = some (e, n) → n < P.clock

section

variable {rules : Rules} {owner session : List ℕ} {P P' : Pool} {c c' d : Task}

theorem Stamps.stamped (h : Stamps P c P' c') (hc : c.Stamped P) : c'.Stamped P' := by
  intro e n hc'
  rcases h.2 e n hc' with ⟨e', h1⟩ | ⟨rfl, h1⟩
  · exact (hc e' n h1).trans_le h.1
  · exact h1

theorem Stamps.apart (h : Stamps P c P' c') (hd : d.Stamped P) (hR : StampsApart c d) :
    StampsApart c' d := by
  intro e n e' n' hc' hd'
  rcases h.2 e n hc' with ⟨e0, h1⟩ | ⟨rfl, -⟩
  · exact hR e0 n e' n' h1 hd'
  · exact (hd e' n' hd').ne'

/-- **No two tasks have the same lease**, in any run. -/
theorem stampsApart_of_reachable {sys : Sys Pool Task}
    (h : Reachable rules owner session sys) : sys.parts.Pairwise StampsApart := by
  refine (reachable_apart (I := Home) (P := fun P c => c.Home ∧ c.Stamped P)
    (R := StampsApart) ?_ ?_ ?_ ?_ ?_ ?_ ?_ ?_ h).2.2
  · exact fun hR e n e' n' hc hd => (hR e' n' e n hd hc).symm
  · intro e s he
    simp at he
  · intro P c P' c' hs hI hP
    have hstamps := (hs.locks hI hP.1).1
    exact ⟨(hs.homes hI hP.1).1, (hs.homes hI hP.1).2, hstamps.stamped hP.2⟩
  · intro P c P' c' d hs hI hc hd hR
    have hstamps := (hs.locks hI hc.1).1
    exact ⟨⟨hd.1, fun e n h => (hd.2 e n h).trans_le hstamps.1⟩, hstamps.apart hd.2 hR⟩
  · intro P c hjoin _
    cases hjoin <;> exact ⟨Task.home_of_none rfl, fun _ _ h => by simp [Task.holds] at h⟩
  · intro P c d hjoin _ _
    cases hjoin <;> exact fun _ _ _ _ _ h => by simp [Task.holds] at h
  · exact fun henv hhome => henv.homes hhome
  · intro P P' d henv _ hd
    exact ⟨hd.1, fun e n h => by rw [henv.locks.1]; exact hd.2 e n h⟩

end

end Pydeno.Sessions
