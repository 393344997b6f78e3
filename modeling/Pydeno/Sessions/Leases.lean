import Pydeno.Sessions.Helpers.Store
/-!
# Leases

The lock of an entry is held by a task: a `get` in progress, one that has
returned and whose lease has not ended, or a `drop` in progress (`Owned`). A
step hands a lock on only to the task that takes it, and a task that stops
holding one has released it, with two exceptions. A `get` that is cancelled
when its inner `acquire` has got the lock and it has not resumed leaves the lock
held, and nobody holds it (`owned_fails`). A release that finds its session
dropped, or the pool closed, leaves the lock of the entry it had; that entry is
gone, and nobody waits for it.

Where every lease is ended by the release that owns it, no two callers have the
same session (`Apart`).
-/

namespace Pydeno.Sessions

open Interleaving Wire

/-! ## The properties -/

/-- Every lock that is held, of the entries in question, is one task's. -/
structure Owned (which : Entry → Prop) (sys : Sys Pool Task) : Prop where
  held : ∀ e n, which (sys.shared.entries e) → (sys.shared.entries e).lock = some n →
    ∃ c ∈ sys.parts, c.holds = some (e, n)
  once : sys.parts.Pairwise fun c d => ∀ k, c.holds = some k → d.holds ≠ some k

/-- No two tasks have a lease on the same session. -/
def Apart (sys : Sys Pool Task) : Prop :=
  sys.parts.Pairwise fun c d => ∀ s, c.session = some s → d.session ≠ some s

section

variable {rules : Rules} {owner session : List ℕ}

theorem once_of_reachable {sys : Sys Pool Task} (h : Reachable rules owner session sys) :
    sys.parts.Pairwise fun c d => ∀ k, c.holds = some k → d.holds ≠ some k :=
  (stampsApart_of_reachable h).imp fun hR k hc hd => hR k.1 k.2 k.1 k.2 hc hd rfl

/-- **Every lock that is held is one task's**, unless a `get` is lost or a lease
outlives its session. -/
theorem owned_of_reachable {sys : Sys Pool Task} (hlosing : rules.losing = false)
    (houtliving : rules.outliving = false) (h : Reachable rules owner session sys) :
    Owned (fun _ => True) sys := by
  refine ⟨fun e n _ hlock => ?_, once_of_reachable h⟩
  refine reachable_covered (I := Home) (P := fun _ => Task.Home)
    (Q := fun P k => (P.entries k.1).lock = some k.2) (H := fun c k => c.holds = some k)
    home_of_reachable ?_ ?_ ?_ h (e, n) hlock
  · intro k hk
    simp at hk
  · intro P c P' c' hs hI hP
    refine ((hs.locks hI hP).2 hlosing).resolve_right fun hout => ?_
    cases houtliving.symm.trans hout.1
  · intro P P' henv _ k hk
    rw [henv.locks.2] at hk
    exact hk

/-- **Every lock of an entry that is not gone is one task's**, unless a `get` is
lost: a lease that outlives its session was one on an entry that is gone. -/
theorem owned_live_of_reachable {sys : Sys Pool Task} (hlosing : rules.losing = false)
    (hstray : rules.stray = false) (h : Reachable rules owner session sys) :
    Owned (fun x => x.gone = false) sys := by
  refine ⟨fun e n hlive hlock => ?_, once_of_reachable h⟩
  refine reachable_covered (I := PoolOk) (P := TaskOk)
    (Q := fun P k => (P.entries k.1).gone = false ∧ (P.entries k.1).lock = some k.2)
    (H := fun c k => c.holds = some k) ?_ ?_ ?_ ?_ h (e, n) ⟨hlive, hlock⟩
  · intro sys h
    obtain ⟨hI, hP, -⟩ := ok_of_reachable hstray h
    exact ⟨hI, hP⟩
  · rintro k ⟨hk, -⟩
    simp at hk
  · rintro P c P' c' hs hI hP k ⟨hlive, hlock⟩
    rcases (hs.locks hI.home hP.home).2 hlosing with hcovers | ⟨-, rfl, e, n, s, rfl, hvoid⟩
    · refine (hcovers k hlock).imp id fun ⟨hlock', hne⟩ => ⟨⟨?_, hlock'⟩, hne⟩
      by_contra hgone
      cases hlive.symm.trans (hs.ages.gone _ (hI.born hlock') (by simpa using hgone))
    · -- its entry would be the one in the map, with its sandbox, and locked
      refine .inr ⟨⟨hlive, hlock⟩, fun hk => ?_⟩
      obtain rfl : (e, n) = k := by simpa [Task.holds] using hk
      have hbarrier : (P'.entries e).barrier = false := by
        by_contra hb
        cases hlive.symm.trans (hP.bare e n rfl (by simpa using hb))
      simp [hvoid e (hI.live e hlive) hbarrier (hP.leased e n s rfl hlive)] at hlock
  · rintro P P' henv - k ⟨hlive, hlock⟩
    rw [henv.locks.2] at hlock
    refine ⟨?_, hlock⟩
    by_contra hgone
    cases hlive.symm.trans (henv.gone_mono (by simpa using hgone))

/-- A task that has a session has its lease. -/
theorem Task.holds_of_session {c : Task} {s : Sandbox} (h : c.session = some s) :
    ∃ e n, c.holds = some (e, n) := by
  cases c with
  | leased e n s' => exact ⟨e, n, rfl⟩
  | writes who e n s' w =>
    cases who with
    | release => exact ⟨e, n, rfl⟩
    | _ => simp [session] at h
  | _ => simp [session] at h

/-- **No two callers have the same session**, where every lease is ended by its
own release. -/
theorem apart_of_reachable {sys : Sys Pool Task} (hstray : rules.stray = false)
    (h : Reachable rules owner session sys) : Apart sys := by
  obtain ⟨-, hP, hR⟩ := ok_of_reachable hstray h
  refine hR.imp_of_mem fun {c d} hc hd hR s hcs hds => ?_
  obtain ⟨e, n, hce⟩ := Task.holds_of_session hcs
  obtain ⟨e', n', hde⟩ := Task.holds_of_session hds
  -- the session is that of one entry, whose lock both hold
  have he : e' = e := ((hP d hd).home e' n' s hde hds).symm.trans ((hP c hc).home e n s hce hcs)
  exact hR.entry_ne (hP c hc) (hP d hd) hce (he ▸ hde)

/-- **Leases are owned**, unless a `get` is lost: of all entries, where no lease
outlives its session, and of those that are not gone, where no release is astray.
And they are kept apart, where no release is astray. -/
theorem lease_ownership {sys : Interleaving.Sys Pool Task} (h : Reachable rules owner session sys) :
    (rules.losing = false → rules.outliving = false → Owned (fun _ => True) sys) ∧
      (rules.losing = false → rules.stray = false → Owned (fun x => x.gone = false) sys) ∧
      (rules.stray = false → Apart sys) :=
  ⟨fun hlosing houtliving => owned_of_reachable hlosing houtliving h,
    fun hlosing hstray => owned_live_of_reachable hlosing hstray h,
    fun hstray => apart_of_reachable hstray h⟩

/-- **One writer.** Where no release is astray, a live entry is the one in the map, and until
the pool is closed no two tasks store one entry and none stores a quiet one. -/
theorem one_writer {sys : Interleaving.Sys Pool Task} (hstray : rules.stray = false)
    (h : Reachable rules owner session sys) :
    (∀ e, (sys.shared.entries e).gone = false → sys.shared.current = some e) ∧
    (sys.shared.closed = false →
      (sys.parts.Pairwise fun c d => ∀ e, c.writesOn = some e → d.writesOn ≠ some e) ∧
      ∀ c ∈ sys.parts, ∀ e, c.writesOn = some e → (sys.shared.entries e).quiet = false) := by
  obtain ⟨hI, hP, hR⟩ := ok_of_reachable hstray h
  refine ⟨hI.live, fun hopen => ?_⟩
  have hnot := not_allGone hopen
  refine ⟨hR.imp_of_mem fun {c d} hc hd hR e hce hde => ?_,
    fun c hc e hw => ((hP c hc).stored e hw).resolve_left hnot |>.1⟩
  -- both would have the lease of the entry
  obtain ⟨n, hn⟩ := ((hP c hc).writer hce).resolve_right hnot
  obtain ⟨n', hn'⟩ := ((hP d hd).writer hde).resolve_right hnot
  exact hR.entry_ne (hP c hc) (hP d hd) hn hn'

variable {P P' : Pool} {parts : List Task}

/-- **A release runs up to the store of its journal.** -/
theorem reaches_setsJournal {e n c : ℕ} {s : Sandbox} (before after : List Task)
    (h : Reachable rules owner session ⟨P, before ++ .leased e n s :: after⟩)
    (hcurrent : P.current = some e) (hbarrier : (P.entries e).barrier = false)
    (hown : (P.entries e).lock = some n)
    (hbegins : P.releases .release e n = (P', .writes .release e n s (.readsCounter c)))
    (hlive : (P'.entries e).dropped = false) (hcounter : P'.counter ≤ (P'.entries e).counter) :
    Reachable rules owner session
      ⟨P', before ++ .writes .release e n s (.setsJournal c false) :: after⟩ := by
  have hrelease := h.acts before after
    (.releases hcurrent hbarrier (by simp [hown]) (.inr ⟨rfl, hown⟩))
  rw [hbegins] at hrelease
  have hread := hrelease.acts before after (.writes .reads)
  have hgot := hread.acts before after (.writes (.current hlive hcounter))
  exact hgot.acts before after (.writes (.dumped hlive))

/-- **A `get` restores the stored journal**, where the map has no entry. -/
theorem reaches_restored {j : Journal} (h : Reachable rules owner session ⟨P, parts⟩)
    (hopen : P.closed = false) (hnone : P.current = none)
    (hjournal : P.journal = some (.journal owner session j)) (hfloor : P.counter ≤ j.counter) :
    let out := (((P.add .new).acquire P.nextEntry).modify P.nextEntry
      ({ · with counter := j.counter })).restore P.nextEntry P.clock (.journal owner session j) j
    Reachable rules owner session ⟨out.1, parts ++ [out.2]⟩ := by
  have hcreates := (h.joins .get).acts parts [] (.creates hopen hnone)
  have henter : ((P.add .new).acquire P.nextEntry).enter P.nextEntry P.clock =
      ((P.add .new).acquire P.nextEntry, .prepares P.nextEntry P.clock (.readsFloor 0)) := by
    simp only [Pool.enter, acquire_entry, add_self]
    rfl
  rw [henter] at hcreates
  have hfloors := hcreates.acts parts [] (.prepares .readsFloor)
  have hreads := hfloors.acts parts [] (.prepares .readsJournal)
  have hgot : ((P.add .new).acquire P.nextEntry).journal = _ := hjournal
  rw [hgot] at hreads
  have hopens := hreads.acts parts [] (.prepares (.opens (max_le (Nat.zero_le _) hfloor)))
  exact hopens.acts parts [] (.prepares (.loaded rfl))

end

/-- A run with nothing out of the ordinary. -/
def plainRules : Rules where
  stray := false
  losing := false
  overlapping := false
  aborting := false
  closing := false
  tampering := false
  outliving := false
  cutting := false
  crossing := false

/-- The sandbox of a first lease. -/
def firstSandbox : Sandbox := ⟨0, 0, none⟩

/-- The pool once a first `get` has started a session. -/
def leasedPool : Pool :=
  ((((Pool.new.add .new).acquire 0).modify 0 ({ · with counter := 0 })).install 0 0 none).1

theorem reachable_leased (rules : Rules) : Reachable rules (ascii "ada") (ascii "s")
      ⟨leasedPool, [.leased 0 0 firstSandbox]⟩ := by
  have hjoin := (reachable_nil : Reachable rules (ascii "ada") (ascii "s") ⟨.new, []⟩).joins .get
  have hcreates := hjoin.acts [] [] (.creates rfl rfl)
  have hentered : Reachable rules (ascii "ada") (ascii "s")
      ⟨_, [.prepares 0 0 (.readsFloor 0)]⟩ := hcreates
  have hfloor := Interleaving.Reachable.acts [] [] hentered (.prepares .readsFloor)
  have hread := hfloor.acts [] [] (.prepares .readsJournal)
  have hempty := hread.acts [] [] (.prepares .empty)
  exact hempty.acts [] [] (.prepares .created)

/-- A session is leased, a second `get` waits for it, and a drop begins. -/
theorem lease_ownership_leased : ∃ sys,
    sys.parts = [.leased 0 0 firstSandbox, .waits 0, .drops 1 1 (some 0) .closesSandbox] ∧
    Reachable plainRules (Wire.ascii "ada") (Wire.ascii "s") sys ∧
    Owned (fun _ => True) sys ∧ Owned (fun x => x.gone = false) sys ∧ Apart sys := by
  have hsecond := (reachable_leased plainRules).joins .get
  have hwaits := hsecond.acts [Task.leased 0 0 firstSandbox] [] (.queues rfl rfl)
  have hdrop := hwaits.joins .drop
  have hbegins := hdrop.acts [Task.leased 0 0 firstSandbox, .waits 0] []
    (.dropBegins rfl (fun _ e he => by cases e <;> cases he) fun _ b hb => by cases hb; rfl)
  obtain ⟨howned, hlive, hapart⟩ := lease_ownership hbegins
  exact ⟨_, rfl, hbegins, howned rfl rfl, hlive rfl rfl, hapart rfl⟩

/-- A release is storing the entry. -/
theorem one_writer_release : ∃ sys, Reachable plainRules (Wire.ascii "ada") (Wire.ascii "s") sys ∧
    (∃ c ∈ sys.parts, c.writesOn = some 0) ∧ (sys.shared.entries 0).quiet = false := by
  have h := reaches_setsJournal [] [] (reachable_leased plainRules) rfl rfl rfl rfl rfl (by decide)
  exact ⟨_, h, ⟨_, .head _, rfl⟩, ((one_writer rfl h).2 rfl).2 _ (.head _) 0 rfl⟩

/-- **A `get` that is cancelled at the wrong moment leaves the session
leased.** A second `get` waits, the first one's lease is released, the inner
`acquire` gets the lock, and the `get` is cancelled before it resumes. -/
theorem owned_fails : ∃ sys, Reachable { plainRules with losing := true } (Wire.ascii "ada")
    (Wire.ascii "s") sys ∧ ¬Owned (fun x => x.gone = false) sys := by
  have hsecond := (reachable_leased { plainRules with losing := true }).joins .get
  have hwaits := hsecond.acts [Task.leased 0 0 firstSandbox] [] (.queues rfl rfl)
  have hdumped := reaches_setsJournal [] [Task.waits 0] hwaits rfl rfl rfl rfl rfl (by decide)
  have hset := hdumped.acts [] [Task.waits 0]
    (.writes .setsJournal)
  have hlive := hset.acts [] [Task.waits 0] (.writes (.journalSet rfl))
  have hcounter := hlive.acts [] [Task.waits 0] (.writes .setsCounter)
  have hdone := hcounter.acts [] [Task.waits 0] (.writes (.counterSet rfl))
  have hreleased : Reachable { plainRules with losing := true } (Wire.ascii "ada") (Wire.ascii "s")
      ⟨_, [.ended, .waits 0]⟩ := hdone
  have hgranted := Interleaving.Reachable.acts [Task.ended] [] hreleased (.granted rfl)
  have hlost := hgranted.acts [Task.ended] [] (.lost rfl)
  refine ⟨_, hlost, fun howned => ?_⟩
  obtain ⟨c, hc, hholds⟩ := howned.held 0 1 rfl rfl
  obtain rfl : c = .ended := by simpa using hc
  simp [Task.holds] at hholds

end Pydeno.Sessions
