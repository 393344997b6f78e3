import Pydeno.Sessions.Helpers.Drops
import Pydeno.Sessions.Leases
/-!
# A drop is final

After a drop has returned, `get` restores no session from a journal of a lease
that began before the drop was called, and the writes of entries that were
dropped by then delete no journal of a later lease (`Final`). This holds as long
as no drop is called while a write of a dropped entry is in progress.

Such a write belongs to an entry that an earlier drop has replaced, and only
that drop waits for it. A second drop replaces the barrier of the first, which
is quiet: it returns, the write then stores its journal, and `get` restores it
(`final_fails`).
-/

namespace Pydeno.Sessions

/-! ## The property -/

/-- **Drops are final.** -/
structure Final (owner session : List ℕ) (P : Pool) : Prop where
  /-- What `get` returned was not restored from a journal of a lease that began
  before a drop was called that had returned. -/
  restored : ∀ r ∈ P.returned, ∀ j, r.sandbox.origin = some j → ∀ d ∈ r.drops, d.called ≤ j.lease
  /-- What a write of an entry deleted was no journal of a lease that began after
  a drop had returned, if the entry was dropped by that drop or before it. -/
  kept : ∀ x ∈ P.deleted, ∀ d ∈ x.drops, x.droppedAt ≤ d.called →
    ∀ j, x.value = some (.journal owner session j) → j.lease < d.returned

theorem DropOk.final {owner session : List ℕ} {P : Pool} (hO : DropOk P) :
    Final owner session P where
  restored := hO.returned
  kept x hx d hd hat := absurd (hO.deleted x hx d hd) (Nat.not_lt.2 hat)

/-! ## Every step -/

section

variable {rules : Rules} {owner session : List ℕ} {e n : ℕ} {made : Sandbox → Prop}
variable {P P' : Pool} {c c' d : Task}

/-- **A step keeps what drops rely on**, for its own task and for every other
one. -/
structure DropKeeps (P : Pool) (c : Task) (P' : Pool) (c' : Task) : Prop where
  dropOk : DropOk P'
  dropTask : DropTask P' c'
  others : ∀ d, TaskOk P d → StampsApart c d → DropTask P d → DropsApart c d →
    DropTask P' d ∧ DropsApart c' d

theorem DropKeeps.trans {pool'' : Pool} {c'' : Task} (h : DropKeeps P c P' c')
    (hk : Keeps P c P' c') (h' : DropKeeps P' c' pool'' c'') : DropKeeps P c pool'' c'' := by
  refine ⟨h'.dropOk, h'.dropTask, fun d hd hR hdT hdR => ?_⟩
  obtain ⟨hd', hR'⟩ := hk.others d hd hR
  obtain ⟨hdT', hdR'⟩ := h.others d hd hR hdT hdR
  exact h'.others d hd' hR' hdT' hdR'

/-- A step that leaves the entries and the store alone, and its task with
nothing. -/
theorem DropKeeps.free (hO : DropOk P) (hc' : c'.Free) : DropKeeps P c P c' :=
  ⟨hO, hc'.dropTask, fun _ _ _ hdT _ => ⟨hdT, hc'.dropsApart⟩⟩

/-- A step of a lease, for the other tasks. -/
theorem Own.dropTask (h : Own e n P c P' c') (hI : PoolOk P) (hP : TaskOk P c)
    (hc : c.works = some (e, n)) (hO : DropOk P) (hd : TaskOk P d) (hdT : DropTask P d)
    (hjournal : ∀ b m old p, d = .drops b m old p → p.deleted = true → ∀ o i j,
      P'.journal = some (.journal o i j) → P.journal = some (.journal o i j) ∨ m ≤ j.lease) :
    DropTask P' d := by
  refine (h.frame hI hP hO).dropTask h.drops ?_ hI hO hd hjournal hdT
  exact fun _ _ => h.toLocal.stands fun hb hlive =>
    nomatch hlive.symm.trans (hP.bare e n hc hb)

/-- A piece of a step begins a write only on an entry in the map. -/
theorem Piece.dropsApart (h : Piece e n made P (P', c'))
    (hlock : (P.entries e).lock = some n) (hdT : DropTask P d) : DropsApart c' d := by
  have hof : c'.Of e n := h.of
  refine ⟨?_, ?_⟩
  · rintro b m old p who e' n' s w rfl
    cases hof
  · rintro b m old p who e' n' s w hd - rfl -
    obtain rfl : n' = n := by cases hof <;> rfl
    rcases h.writesOn with ⟨h1, -⟩ | ⟨-, -, hlive⟩
    · simp at h1
    · exact (hdT.drop b m old p hd).locks e n' hlock (.inl (h.toLocal.live hlive))

/-- **A step of a lease that leaves the store alone.** -/
theorem Piece.dropKeeps (h : Piece e n made P (P', c')) (hblank : c'.Blank P')
    (hmade : ∀ s, made s → (P.entries e).gone = false → ∀ j, s.origin = some j →
      P.After j.lease) (hentry : ∀ s, made s → s.entry = e)
    (hI : PoolOk P) (hP : TaskOk P c) (hc : c.works = some (e, n)) (hO : DropOk P) :
    DropKeeps P c P' c' := by
  have hlock := hP.holds e n (Task.holds_of_works hc)
  have hO' := (h.works hO hmade).dropOk hO
  have hown : Own e n P c P' c' := h.own hentry
  refine ⟨hO', h.dropTask hblank (hown.keeps hI hP hc).poolOk hO' hlock,
    fun d hd _ hdT _ => ⟨?_, h.dropsApart hlock hdT⟩⟩
  exact hown.dropTask hI hP hc hO hd hdT fun _ _ _ _ _ _ _ _ _ hj => .inl (h.journal ▸ hj)

theorem enter_dropKeeps (hI : PoolOk P) (hP : TaskOk P c) (hc : c.works = some (e, n))
    (hO : DropOk P) : DropKeeps P c (P.enter e n).1 (P.enter e n).2 :=
  Piece.dropKeeps (piece_enter : Piece e n makesNone P _) leaves_enter.blank
    (fun _ h => h.elim) (fun _ h => h.elim) hI hP hc hO

/-- **A lease begins.** -/
theorem acquire_dropKeeps (hI : PoolOk P) (hO : DropOk P) (hfree : (P.entries e).lock = none) :
    DropKeeps P c (P.acquire e) (.acquired e P.clock) := by
  refine ⟨acquire_dropOk hO, ⟨by simp, by simp, by simp, by simp, by simp⟩,
    fun d hd _ hdT _ => ⟨?_, dropsApart_of rfl (by simp)⟩⟩
  refine acquire_frame.dropTask rfl (fun _ _ => acquire_stands hfree) hI hO hd ?_ hdT
  exact fun _ _ _ _ _ _ _ _ _ hj => .inl hj

theorem add_dropKeeps (hI : PoolOk P) (hO : DropOk P) (hnone : P.current = none) :
    DropKeeps P c (P.add .new) .looks := by
  refine ⟨add_dropOk hO, free_looks.dropTask, fun d hd _ hdT _ => ⟨?_, free_looks.dropsApart⟩⟩
  refine add_frame.dropTask rfl (fun _ _ => add_stands hnone) hI hO hd ?_ hdT
  exact fun _ _ _ _ _ _ _ _ _ hj => .inl hj

/-- **A drop begins.** -/
theorem barricade_dropKeeps {dead : List Sandbox} {p : Dropping} (hI : PoolOk P)
    (hO : DropOk P)
    (hquiet : ∀ e, (P.entries e).dropped = true → (P.entries e).quiet = true)
    (hpassed : p.passed = false) (hdeleted : p.deleted = false) :
    DropKeeps P c { P.barricade with dead := dead }
      (.drops P.nextEntry P.clock P.current p) := by
  have hO' := barricade_dropOk hI hO
  have hD := barricade_dropPhase hI hO hquiet hpassed hdeleted
  refine ⟨{ hO' with }, .of_phase { hD with stands := hD.stands }, fun d hd _ hdT _ => ⟨?_, ?_⟩⟩
  · have hT : DropTask P.barricade d := by
      refine (barricade_frame hI hO).dropTask (barricade_same _).2.1 ?_ hI hO hd ?_ hdT
      · exact fun _ hm _ => barricade_stands hm.le
      · exact fun _ _ _ _ _ _ _ _ _ hj => .inl ((barricade_same _).1 ▸ hj)
    exact { hT with drop := fun b m old p hd' =>
      have hD' := hT.drop b m old p hd'
      { hD' with stands := hD'.stands } }
  · refine dropsApart_of rfl fun _ _ _ _ hc => ?_
    rw [← (Task.drops.inj hc).2.2.2]
    exact hpassed

/-- **A step of `_persist` keeps what drops rely on.** -/
theorem WriteStep.dropKeeps {who : Who} {s : Sandbox} {w : Writing} {out : Written}
    (hwho : who = .release ∨ who = .prepare)
    (h : WriteStep rules owner session e n s P w P' out) (hI : PoolOk P)
    (hP : TaskOk P (.writes who e n s w)) (hO : DropOk P) (hT : DropTask P (.writes who e n s w)) :
    DropKeeps P (.writes who e n s w) (P'.wrote who e n s out).1
      (P'.wrote who e n s out).2 := by
  have hworks := Task.works_writes hwho e n s w
  have hlock := hP.holds e n (Task.holds_of_works hworks)
  have hO1 := (h.works hT).dropOk hO
  -- what is stored is the lease's own, after every drop that is past its entry
  have hjournal : ∀ {pool₁ : Pool}, pool₁.journal = P'.journal → ∀ d,
      DropsApart (.writes who e n s w) d → ∀ b m old p, d = .drops b m old p →
      p.deleted = true → ∀ o i j, pool₁.journal = some (.journal o i j) →
      P.journal = some (.journal o i j) ∨ m ≤ j.lease := by
    intro pool₁ hsame d hR b m old p hd hp o i j hj
    refine (h.journal (hsame ▸ hj)).imp id fun ⟨hw, hn⟩ => ?_
    rw [hn]
    refine hR.2 b m old p who e n s w hd ?_ rfl hw
    cases p <;> simp [Dropping.deleted, Dropping.passed] at hp ⊢
  have hown := h.own hwho
  -- the end of `_persist` is a piece that follows what was done before
  have hends : ∀ returned, Own e n P (.writes who e n s w)
      (P'.persisted who e n s returned).1 (P'.persisted who e n s returned).2 →
      DropKeeps P (.writes who e n s w) (P'.persisted who e n s returned).1
        (P'.persisted who e n s returned).2 := by
    intro returned hown
    obtain ⟨hpiece, hnone⟩ := piece_persisted hwho P' e n s returned
    have hquiet : Tame e makesNone P' (P'.modify e ({ · with quiet := true })) :=
      tame_quiet true
    have hO2 := (hquiet.works rfl).dropOk hO1
    have hO3 := (hpiece.works hO2 fun _ h => h.elim).dropOk hO2
    have hlock' : ((P'.modify e ({ · with quiet := true })).entries e).lock = some n := by
      simpa using h.effect.lock_eq.trans hlock
    refine ⟨hO3,
      hpiece.dropTask leaves_persisted.blank (hown.keeps hI hP hworks).poolOk hO3 hlock',
      fun d hd _ hdT hR => ⟨?_, ?_⟩⟩
    · exact hown.dropTask hI hP hworks hO hd hdT (hjournal leaves_persisted.journal d hR)
    · refine dropsApart_of hnone fun b m old p hc => ?_
      have hof := hpiece.of
      rw [hc] at hof
      cases hof
  cases out with
  | goes w' =>
    refine ⟨hO1, h.dropTask hT, fun d hd _ hdT hR => ⟨?_, ?_, ?_⟩⟩
    · exact hown.dropTask hI hP hworks hO hd hdT (hjournal rfl d hR)
    · exact fun b m old p who' e' n' s' w1 hc => by simp [Pool.wrote] at hc
    · intro b m old p who' e' n' s' w1 hd' hp hc hw
      obtain ⟨rfl, rfl, rfl, rfl, rfl⟩ := Task.writes.inj hc
      exact hR.2 b m old p who e n s w hd' hp rfl ((h.goes rfl).1 hw)
  | returns => exact hends true hown
  | raises => exact hends false hown

/-- **A step keeps what drops rely on**, where no drop is called while a write
of a dropped entry is in progress, none fails, and the pool is not closed. -/
theorem Step.dropKeeps (hstray : rules.stray = false) (hoverlapping : rules.overlapping = false)
    (haborting : rules.aborting = false) (hclosing : rules.closing = false)
    (hs : Step rules owner session P c P' c') (hI : PoolOk P) (hP : TaskOk P c)
    (hO : DropOk P) (hT : DropTask P c) : DropKeeps P c P' c' := by
  have hopen : ∀ e, c.closes ≠ some e := fun e hc =>
    nomatch hO.opened.symm.trans (hP.closes e hc).1.1
  cases hs with
  | gives | timesOut | lost | releaseReturns | releaseVoid | dropRefused | closesEmpty | closeCancelled
  | closeWaitCancelled | closeWriteCancelled => exact .free hO free_ended
  | creates hopened hnone =>
    have hadd : Keeps P .looks (P.add .new) .looks := add_keeps hI hopened hnone
    have hfree : ((P.add .new).entries P.nextEntry).lock = none := by rw [add_self]; rfl
    have hacquire : Keeps (P.add .new) .looks ((P.add .new).acquire P.nextEntry)
        (.acquired P.nextEntry P.clock) :=
      acquire_keeps hadd.poolOk (Nat.lt_succ_self _) hfree
    have hadd' : DropKeeps P .looks (P.add .new) .looks := add_dropKeeps hI hO hnone
    have hacquire' := acquire_dropKeeps (c := .looks) hadd.poolOk hadd'.dropOk hfree
    have henter := enter_dropKeeps hacquire.poolOk hacquire.taskOk rfl hacquire'.dropOk
    exact hadd'.trans hadd (hacquire'.trans hacquire henter)
  | @acquires e hopen hcurrent hfree =>
    have hacquire : Keeps P .looks (P.acquire e) (.acquired e P.clock) :=
      acquire_keeps hI (hI.known e hcurrent) hfree
    have hacquire' := acquire_dropKeeps (c := .looks) hI hO hfree
    have henter := enter_dropKeeps hacquire.poolOk hacquire.taskOk rfl hacquire'.dropOk
    exact hacquire'.trans hacquire henter
  | queues => exact .free hO free_waits
  | granted hfree => exact acquire_dropKeeps hI hO hfree
  | woken => exact .free hO free_looks
  | resumes => exact enter_dropKeeps hI hP rfl hO
  | @prepares P' e n p c' h =>
    have hlock := hP.holds e n rfl
    have hO' := (h.works hO hT).dropOk hO
    have hown : Own e n P (.prepares e n p) P' c' := h.own
    refine ⟨hO', h.dropTask hO (hown.keeps hI hP rfl).poolOk hO' hT hlock, fun d hd _ hdT _ =>
      ⟨?_, h.piece.dropsApart hlock hdT⟩⟩
    exact hown.dropTask hI hP rfl hO hd hdT fun _ _ _ _ _ _ _ _ _ hj =>
      .inl (h.piece.journal ▸ hj)
  | @releases e e' n s hcurrent hbarrier hlocked hown =>
    obtain rfl := entry_of_release hI.home hP.home hown
    exact Piece.dropKeeps (piece_releases : Piece e' n makesNone P _) leaves_releases.blank
      (fun _ h => h.elim) (fun _ h => h.elim) hI hP rfl hO
  | stray h => nomatch hstray.symm.trans h
  | @writes P' who e n s w out h =>
    cases who with
    | release => exact h.dropKeeps (.inl rfl) hI hP hO hT
    | prepare => exact h.dropKeeps (.inr rfl) hI hP hO hT
    | stray => exact absurd rfl (hP.notStray e n s w)
    | close => exact absurd rfl (hopen e)
  | dropBegins _ hquiet =>
    refine barricade_dropKeeps hI hO (hquiet hoverlapping) ?_ ?_ <;> split <;> rfl
  | drops h =>
    obtain ⟨hO', hT'⟩ := h.dropOk haborting hI hP hO hT
    exact ⟨hO', hT', fun d hd _ hdT hR => h.dropOthers haborting hI hP hO hT hd hdT hR⟩
  | closeBegins h => nomatch hclosing.symm.trans h
  | closeMarks => nomatch hO.opened.symm.trans (hP.marks rfl)
  | @closeWaits e | @closeWoken e | @closeSkips e | @closeWrites e | @closeClears e =>
    exact absurd rfl (hopen e)

/-- The environment keeps what drops rely on, where nobody tampers. -/
theorem Env.dropOk (htampering : rules.tampering = false) (henv : Env rules owner session P P')
    (hI : PoolOk P) (hO : DropOk P) :
    DropOk P' ∧ ∀ d, TaskOk P d → DropTask P d → DropTask P' d := by
  -- only the store changes
  have hsame : SameEntries P P' → P'.deleted = P.deleted →
      (P'.journal = P.journal ∨ P'.journal = none) →
      DropOk P' ∧ ∀ d, TaskOk P d → DropTask P d → DropTask P' d := by
    intro hs hdeleted hj
    refine ⟨hO.same hs hdeleted hj, fun d hd hdT => ?_⟩
    refine hs.later.frame.dropTask hs.drops (fun _ _ => hs.later.stands hs.drops) hI hO hd ?_ hdT
    intro _ _ _ _ _ _ o i j hj'
    rcases hj with h1 | h1
    · exact .inl (h1 ▸ hj')
    · simp [h1] at hj'
  cases henv with
  | @evicts e hcurrent hfree =>
    have htame : Tame e makesNone P (P.evict e) := tame_forget.trans tame_clearSandbox
    refine ⟨(htame.works rfl).dropOk hO, fun d hd hdT => ?_⟩
    have hframe : Frame P (P.evict e) := htame.toLocal.frame fun _ hq => by
      simpa [Pool.evict] using hq
    refine hframe.dropTask rfl ?_ hI hO hd ?_ hdT
    · exact fun _ _ => htame.toLocal.stands fun _ _ => hfree
    · exact fun _ _ _ _ _ _ _ _ _ hj => .inl hj
  | dies | others | counters => exact hsame ⟨rfl, rfl, rfl, rfl, rfl, rfl, rfl⟩ rfl (.inl rfl)
  | expires => exact hsame ⟨rfl, rfl, rfl, rfl, rfl, rfl, rfl⟩ rfl (.inr rfl)
  | tampers h => cases htampering.symm.trans h

theorem dropOk_new : DropOk .new where
  opened := rfl
  current e he := by simp at he
  dropped e hd := by simp at hd
  called d hd := by simp at hd
  journal o i j hj := by simp at hj
  sandbox e s j _ hs := by simp at hs
  leases e n hl := by simp at hl
  returned r hr := by simp at hr
  deleted x hx := by simp at hx

end

/-! ## Over a run -/

/-- **A drop is final**, in any run where no drop is called while a write of a
dropped entry is in progress. -/
theorem drop_final {rules : Rules} {owner session : List ℕ} {sys : Interleaving.Sys Pool Task}
    (hstray : rules.stray = false) (hoverlapping : rules.overlapping = false)
    (haborting : rules.aborting = false) (hclosing : rules.closing = false)
    (htampering : rules.tampering = false) (h : Reachable rules owner session sys) :
    Final owner session sys.shared := by
  refine (Interleaving.reachable_apart
    (I := fun pool => PoolOk pool ∧ DropOk pool)
    (P := fun pool c => TaskOk pool c ∧ DropTask pool c)
    (R := fun c d => StampsApart c d ∧ DropsApart c d)
    ?_ ?_ ?_ ?_ ?_ ?_ ?_ ?_ h).1.2.final
  · exact fun hR => ⟨hR.1.symm, hR.2.symm⟩
  · exact ⟨poolOk_new, dropOk_new⟩
  · intro pool c pool' c' hs hI hP
    have hkeeps := hs.keeps hstray hI.1 hP.1
    have hdrops := hs.dropKeeps hstray hoverlapping haborting hclosing hI.1 hP.1 hI.2 hP.2
    exact ⟨⟨hkeeps.poolOk, hdrops.dropOk⟩, hkeeps.taskOk, hdrops.dropTask⟩
  · intro pool c pool' c' d hs hI hP hd hR
    obtain ⟨hd', hR'⟩ := (hs.keeps hstray hI.1 hP.1).others d hd.1 hR.1
    have hdrops := hs.dropKeeps hstray hoverlapping haborting hclosing hI.1 hP.1 hI.2 hP.2
    obtain ⟨hdT, hdR⟩ := hdrops.others d hd.1 hR.1 hd.2 hR.2
    exact ⟨⟨hd', hdT⟩, hR', hdR⟩
  · exact fun hjoin _ => ⟨hjoin.taskOk, hjoin.free.1.dropTask⟩
  · exact fun hjoin _ _ => ⟨(apart_of_none hjoin.free.1.holds).symm, hjoin.free.1.dropsApart.symm⟩
  · exact fun henv hI => ⟨(henv.keeps hI.1).1, (henv.dropOk htampering hI.1 hI.2).1⟩
  · exact fun henv hI hd =>
      ⟨(henv.keeps hI.1).2 _ hd.1, (henv.dropOk htampering hI.1 hI.2).2 _ hd.1 hd.2⟩

/-- A journal is stored, the session is dropped, and the next `get` starts afresh. -/
theorem drop_final_dropped : ∃ sys, Reachable plainRules (Wire.ascii "ada") (Wire.ascii "s") sys ∧
    .journal (Wire.ascii "ada") (Wire.ascii "s") ⟨1, 0, 0⟩ ∈ sys.shared.ever ∧
    ⟨⟨2, 1, none⟩, [⟨1, 2⟩]⟩ ∈ sys.shared.returned ∧
    Final (Wire.ascii "ada") (Wire.ascii "s") sys.shared := by
  -- the release
  have hdumped := reaches_setsJournal [] [] (reachable_leased plainRules) rfl rfl rfl rfl rfl
    (by decide)
  have hset := hdumped.acts [] [] (.writes .setsJournal)
  have hlive := hset.acts [] [] (.writes (.journalSet rfl))
  have hcounter := hlive.acts [] [] (.writes .setsCounter)
  have hdone := hcounter.acts [] [] (.writes (.counterSet rfl))
  have hsaved : Reachable plainRules (Wire.ascii "ada") (Wire.ascii "s") ⟨_, [.ended]⟩ := hdone
  -- the drop
  have hjoin := Interleaving.Reachable.joins hsaved .drop
  have hbegins := hjoin.acts [Task.ended] [] (.dropBegins rfl
    (fun _ e he => by cases e <;> cases he) fun _ b hb => by cases hb; rfl)
  have hcloses : Reachable plainRules (Wire.ascii "ada") (Wire.ascii "s")
      ⟨_, [.ended] ++ .drops 1 1 (some 0) .closesSandbox :: []⟩ := hbegins
  have hclosed := Interleaving.Reachable.acts _ [] hcloses (.drops .closed)
  have hquiet := hclosed.acts _ [] (.drops (.quiet fun e he => by cases he; rfl))
  have hreads := hquiet.acts _ [] (.drops .reads)
  have hgot := hreads.acts _ [] (.drops .got)
  have hdeletes := hgot.acts _ [] (.drops .deletes)
  have hbumped := hdeletes.acts _ [] (.drops .setsCounter)
  have hreturns := hbumped.acts _ [] (.drops .returns)
  -- the next `get`
  have hget := hreturns.joins .get
  have hcreates := hget.acts [Task.ended, .ended] [] (.creates rfl rfl)
  have hentered : Reachable plainRules (Wire.ascii "ada") (Wire.ascii "s")
      ⟨_, [.ended, .ended] ++ .prepares 2 3 (.readsFloor 0) :: []⟩ := hcreates
  have hfloor := Interleaving.Reachable.acts _ [] hentered (.prepares .readsFloor)
  have hread := hfloor.acts _ [] (.prepares .readsJournal)
  have hempty := hread.acts _ [] (.prepares .empty)
  have hleased := hempty.acts _ [] (.prepares .created)
  exact ⟨_, hleased, by decide, by decide, drop_final rfl rfl rfl rfl rfl hleased⟩

/-- Drops are called while writes of dropped entries are in progress. -/
def overlappingRules : Rules := { plainRules with overlapping := true, crossing := true }

/-- **A dropped session comes back.** A release is about to store its journal
when two drops are called. The first waits for it. The second replaces the
first one's barrier, which is quiet, and returns. Then the journal is stored,
and `get` restores it. -/
theorem final_fails : ∃ sys,
    Reachable overlappingRules (Wire.ascii "ada") (Wire.ascii "s") sys ∧
    ¬Final (Wire.ascii "ada") (Wire.ascii "s") sys.shared := by
  have hstores := reaches_setsJournal [] [] (reachable_leased overlappingRules) rfl rfl rfl rfl rfl
    (by decide)
  -- the first drop waits for the release
  have hfirst := Interleaving.Reachable.joins hstores .drop
  have hwaits := hfirst.acts [Task.writes .release 0 0 firstSandbox (.setsJournal 1 false)] []
    (.dropBegins rfl nofun nofun)
  have hfirst' : Reachable overlappingRules (Wire.ascii "ada") (Wire.ascii "s")
      ⟨_, [.writes .release 0 0 firstSandbox (.setsJournal 1 false),
        .drops 1 1 (some 0) .closesSandbox]⟩ := hwaits
  -- the second replaces its barrier
  have hsecond := Interleaving.Reachable.joins hfirst' .drop
  have hbegins := hsecond.acts [Task.writes .release 0 0 firstSandbox (.setsJournal 1 false),
    .drops 1 1 (some 0) .closesSandbox] [] (.dropBegins rfl nofun nofun)
  have hsecond' : Reachable overlappingRules (Wire.ascii "ada") (Wire.ascii "s")
      ⟨_, [.writes .release 0 0 firstSandbox (.setsJournal 1 false),
        .drops 1 1 (some 0) .closesSandbox] ++ .drops 2 2 (some 1) .waitsQuiet :: []⟩ := hbegins
  have hquiet := Interleaving.Reachable.acts _ [] hsecond'
    (.drops (.quiet fun e he => by cases he; rfl))
  have hreads := hquiet.acts _ [] (.drops .reads)
  have hgot := hreads.acts _ [] (.drops .got)
  have hdeletes := hgot.acts _ [] (.drops .deletes)
  have hcounter := hdeletes.acts _ [] (.drops .setsCounter)
  have hreturns := hcounter.acts _ [] (.drops .returns)
  -- the journal is stored, and restored
  have hset := hreturns.acts [] [Task.drops 1 1 (some 0) .closesSandbox, .ended]
    (.writes .setsJournal)
  have hloaded := reaches_restored hset rfl rfl rfl (by decide)
  refine ⟨_, hloaded, fun hfinal => ?_⟩
  have hle := hfinal.restored ⟨⟨3, 1, some ⟨1, 0, 0⟩⟩, [⟨2, 3⟩]⟩ (by decide) ⟨1, 0, 0⟩ rfl
    ⟨2, 3⟩ (by decide)
  exact absurd hle (by decide)

end Pydeno.Sessions
