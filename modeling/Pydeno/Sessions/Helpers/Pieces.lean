import Pydeno.Sessions.Model.Tasks
/-!
# What the pieces of a step do to the entries

Almost every step works on one entry, that of its task (`Local`): the other
entries stay as they are, and of its own it may give up the lock, but not take
it, and mark it as gone, but not as there again. Of the pieces that steps are
made of this is shown here, once; beside it, that a task which stops holding
its lease has given up the lock (`Piece`).
-/

namespace Pydeno.Sessions

open Pool

/-! ## What a task is about -/

/-- The entry and the lease whose lock a task holds. -/
def Task.holds : Task → Option (ℕ × ℕ)
  | .acquired e n => some (e, n)
  | .prepares e n _ => some (e, n)
  | .leased e n _ => some (e, n)
  | .writes .release e n _ _ => some (e, n)
  | .writes .prepare e n _ _ => some (e, n)
  | .drops b n _ _ => some (b, n)
  | _ => none

/-- The entry that a task is storing. -/
def Task.writesOn : Task → Option ℕ
  | .writes _ e _ _ _ => some e
  | _ => none

/-- The session of a lease that has not ended. -/
def Task.session : Task → Option Sandbox
  | .leased _ _ s => some s
  | .writes .release _ _ s _ => some s
  | _ => none

attribute [simp] Task.writesOn Entry.new Entry.blank Pool.new Pool.modify Pool.release Pool.markGone
  forget clearSandbox persist

/-- **The tasks of one lease**, while it lasts and after it. -/
inductive Task.Of (e n : ℕ) : Task → Prop where
  | looks : Task.Of e n .looks
  | ended : Task.Of e n .ended
  | acquired : Task.Of e n (.acquired e n)
  | prepares (p : Preparing) : Task.Of e n (.prepares e n p)
  | leased (s : Sandbox) : Task.Of e n (.leased e n s)
  | release (s : Sandbox) (w : Writing) : Task.Of e n (.writes .release e n s w)
  | prepare (s : Sandbox) (w : Writing) : Task.Of e n (.writes .prepare e n s w)

/-! ## Steps on one entry -/

/-- **A step on one entry.** -/
structure Local (e : ℕ) (P P' : Pool) : Prop where
  others : ∀ e', e' ≠ e → P'.entries e' = P.entries e'
  lock : (P'.entries e).lock = (P.entries e).lock ∨ (P'.entries e).lock = none
  gone : (P.entries e).gone = true → (P'.entries e).gone = true
  dropped : (P'.entries e).dropped = (P.entries e).dropped
  droppedAt : (P'.entries e).droppedAt = (P.entries e).droppedAt
  barrier : (P'.entries e).barrier = (P.entries e).barrier
  /-- An entry leaves the map as it is marked. -/
  current : P'.current = P.current ∨
    (P.current = some e ∧ P'.current = none ∧ (P'.entries e).gone = true)
  /-- An entry is marked as it leaves the map. -/
  forgotten : (P'.entries e).gone = true → (P.entries e).gone = true ∨ P'.current ≠ some e
  nextEntry : P'.nextEntry = P.nextEntry
  clock : P'.clock = P.clock
  closed : P'.closed = P.closed
  drops : P'.drops = P.drops

section

variable {e n : ℕ} {P P' pool'' : Pool} {s : Sandbox}

theorem Local.refl : Local e P P where
  others _ _ := rfl
  lock := .inl rfl
  gone h := h
  dropped := rfl
  droppedAt := rfl
  barrier := rfl
  current := .inl rfl
  forgotten h := .inl h
  nextEntry := rfl
  clock := rfl
  closed := rfl
  drops := rfl

theorem Local.trans (h : Local e P P') (h' : Local e P' pool'') : Local e P pool'' where
  others e' he := (h'.others e' he).trans (h.others e' he)
  lock := by
    rcases h'.lock with h2 | h2
    · rw [h2]
      exact h.lock
    · exact .inr h2
  gone hg := h'.gone (h.gone hg)
  dropped := h'.dropped.trans h.dropped
  droppedAt := h'.droppedAt.trans h.droppedAt
  barrier := h'.barrier.trans h.barrier
  current := by
    rcases h.current with h1 | ⟨h1, h1', hg⟩
    · rw [← h1]
      exact h'.current
    · refine .inr ⟨h1, ?_, h'.gone hg⟩
      rcases h'.current with h2 | ⟨h2, -, -⟩
      · exact h2.trans h1'
      · rw [h1'] at h2
        simp at h2
  forgotten hg := by
    rcases h'.forgotten hg with h2 | h2
    · refine (h.forgotten h2).imp id fun hne => ?_
      rcases h'.current with h3 | ⟨h3, -, -⟩
      · rw [h3]
        exact hne
      · exact absurd h3 hne
    · exact .inr h2
  nextEntry := h'.nextEntry.trans h.nextEntry
  clock := h'.clock.trans h.clock
  closed := h'.closed.trans h.closed
  drops := h'.drops.trans h.drops

/-- A write to the entry that keeps its flags. -/
theorem Local.modify {f : Entry → Entry}
    (hlock : (f (P.entries e)).lock = (P.entries e).lock ∨ (f (P.entries e)).lock = none)
    (hgone : (f (P.entries e)).gone = (P.entries e).gone := by rfl)
    (hdropped : (f (P.entries e)).dropped = (P.entries e).dropped := by rfl)
    (hdroppedAt : (f (P.entries e)).droppedAt = (P.entries e).droppedAt := by rfl)
    (hbarrier : (f (P.entries e)).barrier = (P.entries e).barrier := by rfl) :
    Local e P (P.modify e f) where
  others e' he := by simp [he]
  lock := by simpa using hlock
  gone h := by simpa [hgone] using h
  dropped := by simpa using hdropped
  droppedAt := by simpa using hdroppedAt
  barrier := by simpa using hbarrier
  current := .inl rfl
  forgotten h := by
    left
    simpa [hgone] using h
  nextEntry := rfl
  clock := rfl
  closed := rfl
  drops := rfl

theorem local_release : Local e P (P.release e) :=
  Local.modify (.inr rfl)

theorem local_clearSandbox : Local e P (P.clearSandbox e) :=
  Local.modify (.inl rfl)

theorem local_forget : Local e P (P.forget e) where
  others e' he := by simp [he]
  lock := by simp
  gone _ := by simp
  dropped := by simp
  droppedAt := by simp
  barrier := by simp
  current := by
    by_cases h : P.current = some e
    · right
      simp [h]
    · left
      simp [h]
  forgotten _ := by
    right
    by_cases h : P.current = some e
    · simp [h]
    · simp [h]
  nextEntry := rfl
  clock := rfl
  closed := rfl
  drops := rfl

theorem local_unbar : Local e P (P.unbar e) := local_forget.trans local_release

theorem local_spend : Local e P (P.spend e) := local_clearSandbox.trans local_forget

end

/-! ## Steps that leave the store alone -/

/-- The store, and the pool's account of it. -/
structure SameStore (P P' : Pool) : Prop where
  journal : P'.journal = P.journal
  counter : P'.counter = P.counter
  ever : P'.ever = P.ever
  written : P'.written = P.written
  saved : P'.saved = P.saved
  deleted : P'.deleted = P.deleted

/-- **A step on one entry that leaves the store alone.** A sandbox it puts into
the entry is one that it made. -/
structure Tame (e : ℕ) (made : Sandbox → Prop) (P P' : Pool) : Prop
    extends Local e P P', SameStore P P' where
  sandbox : ∀ s, (P'.entries e).sandbox = some s → (P.entries e).sandbox = some s ∨ made s

/-- No sandbox is made. -/
def makesNone : Sandbox → Prop := fun _ => False

section

variable {e n : ℕ} {made : Sandbox → Prop} {P P' pool'' : Pool} {s : Sandbox}

theorem SameStore.refl : SameStore P P := ⟨rfl, rfl, rfl, rfl, rfl, rfl⟩

theorem SameStore.trans (h : SameStore P P') (h' : SameStore P' pool'') : SameStore P pool'' :=
  ⟨h'.journal.trans h.journal, h'.counter.trans h.counter, h'.ever.trans h.ever,
    h'.written.trans h.written, h'.saved.trans h.saved, h'.deleted.trans h.deleted⟩

theorem Tame.refl : Tame e made P P :=
  { Local.refl, SameStore.refl with sandbox := fun _ h => .inl h }

theorem Tame.trans (h : Tame e made P P') (h' : Tame e made P' pool'') : Tame e made P pool'' :=
  { h.toLocal.trans h'.toLocal, h.toSameStore.trans h'.toSameStore with
    sandbox := fun s hs => (h'.sandbox s hs).elim (h.sandbox s) .inr }

theorem tame_release : Tame e made P (P.release e) :=
  { local_release, SameStore.refl with
    sandbox := fun _ h => .inl (by simpa using h) }

theorem tame_clearSandbox : Tame e made P (P.clearSandbox e) :=
  { local_clearSandbox, SameStore.refl with
    sandbox := fun _ h => by simp at h }

theorem tame_forget : Tame e made P (P.forget e) :=
  { local_forget, SameStore.refl with
    sandbox := fun _ h => .inl (by simpa using h) }

theorem tame_unbar : Tame e made P (P.unbar e) := tame_forget.trans tame_release

theorem tame_prepareFails : Tame e made P (P.prepareFails e) := by
  unfold prepareFails
  split
  · exact tame_forget.trans tame_release
  · exact tame_release

theorem tame_counter (c : ℕ) : Tame e made P (P.modify e ({ · with counter := c })) :=
  { Local.modify (.inl rfl), SameStore.refl with
    sandbox := fun _ h => .inl (by simpa using h) }

theorem tame_quiet (b : Bool) : Tame e made P (P.modify e ({ · with quiet := b })) :=
  { Local.modify (.inl rfl), SameStore.refl with
    sandbox := fun _ h => .inl (by simpa using h) }

end

/-! ## The pieces -/

/-- **What a piece of a step leaves**: it holds its lease or has given up the
lock, and what `get` returns is in the entry, which is not gone. -/
structure Piece (e n : ℕ) (made : Sandbox → Prop) (P : Pool) (r : Pool × Task) : Prop
    extends Tame e made P r.1 where
  of : r.2.Of e n
  holds : (r.2.holds = some (e, n) ∧ (r.1.entries e).lock = (P.entries e).lock) ∨
    (r.2.holds = none ∧ (r.1.entries e).lock = none)
  session : ∀ s, r.2.session = some s →
    (r.1.entries e).sandbox = some s ∧ (r.1.entries e).gone = false
  returned : r.1.returned = P.returned ∨ ∃ s, r.2 = .leased e n s ∧
    r.1.returned = P.returned ++ [⟨s, P.drops⟩]
  /-- A store begins on an entry that is not gone. -/
  writesOn : (r.2.writesOn = none ∧ (r.1.entries e).quiet = (P.entries e).quiet) ∨
    (r.2.writesOn = some e ∧ (r.1.entries e).quiet = false ∧ (r.1.entries e).gone = false)

section

variable {e n : ℕ} {made : Sandbox → Prop} {P P' : Pool} {r : Pool × Task} {s : Sandbox}

/-- A piece may follow a write to the entry. -/
theorem Tame.piece (h : Tame e made P P') (hlock : (P'.entries e).lock = (P.entries e).lock)
    (hquiet : (P'.entries e).quiet = (P.entries e).quiet)
    (hreturned : P'.returned = P.returned) (hr : Piece e n made P' r) : Piece e n made P r :=
  { h.trans hr.toTame with
    of := hr.of
    holds := hr.holds.imp (fun hh => ⟨hh.1, hh.2.trans hlock⟩) id
    session := hr.session
    returned := by
      rcases hr.returned with h' | ⟨s, h1, h2⟩
      · exact .inl (h'.trans hreturned)
      · exact .inr ⟨s, h1, by rw [h2, hreturned, h.drops]⟩
    writesOn := hr.writesOn.imp (fun hw => ⟨hw.1, hw.2.trans hquiet⟩) id }

/-- The lock is given up. -/
theorem piece_release {c : Task} (hc : c = .looks ∨ c = .ended) :
    Piece e n made P (P.release e, c) := by
  have hlock : ((P.release e).entries e).lock = none := by simp
  have hquiet : ((P.release e).entries e).quiet = (P.entries e).quiet := by
    simp
  rcases hc with rfl | rfl
  · exact { tame_release with
      of := .looks, holds := .inr ⟨rfl, hlock⟩, session := by simp [Task.session], returned := .inl rfl
      writesOn := .inl ⟨rfl, hquiet⟩ }
  · exact { tame_release with
      of := .ended, holds := .inr ⟨rfl, hlock⟩, session := by simp [Task.session], returned := .inl rfl
      writesOn := .inl ⟨rfl, hquiet⟩ }

theorem piece_prepares (p : Preparing) : Piece e n made P (P, .prepares e n p) :=
  { Tame.refl with
    of := .prepares p, holds := .inl ⟨rfl, rfl⟩, session := by simp [Task.session]
    returned := .inl rfl, writesOn := .inl ⟨rfl, rfl⟩ }

theorem piece_lease (hsandbox : (P.entries e).sandbox = some s)
    (hgone : (P.entries e).gone = false) : Piece e n made P (P.lease e n s) :=
  { Local.refl, SameStore.refl with
    sandbox := fun _ h => .inl h
    of := .leased s
    holds := .inl ⟨rfl, rfl⟩
    session := by
      intro s' h
      obtain rfl : s = s' := by simpa [lease, Task.session] using h
      exact ⟨hsandbox, hgone⟩
    returned := .inr ⟨s, rfl, rfl⟩
    writesOn := .inl ⟨rfl, rfl⟩ }

theorem piece_ready (hgone : (P.entries e).gone = false) : Piece e n made P (P.ready e n) := by
  unfold ready
  split
  next s hs =>
    exact piece_lease hs hgone
  · exact piece_prepares _

theorem writesOn_ready : (P.ready e n).2.writesOn = none := by
  unfold ready
  split <;> rfl

theorem piece_enter : Piece e n made P (P.enter e n) := by
  unfold enter
  split
  · exact piece_release (.inl rfl)
  · split <;> exact piece_prepares _

theorem piece_persist {who : Who} (hwho : who = .release ∨ who = .prepare)
    (hsandbox : who = .release → (P.entries e).sandbox = some s)
    (hgone : (P.entries e).gone = false) : Piece e n made P (P.persist who e n s) :=
  { tame_quiet false with
    of := by
      rcases hwho with rfl | rfl
      · exact .release _ _
      · exact .prepare _ _
    holds := by
      rcases hwho with rfl | rfl <;> exact .inl ⟨rfl, by simp⟩
    session := by
      intro s' h
      rcases hwho with rfl | rfl
      · obtain rfl : s = s' := by simpa [Task.session] using h
        exact ⟨by simpa using hsandbox rfl, by simpa using hgone⟩
      · simp [Task.session] at h
    returned := .inl rfl
    writesOn := .inr ⟨rfl, by simp, by simpa using hgone⟩ }

theorem piece_clearReady (hgone : (P.entries e).gone = false) :
    Piece e n made P ((P.clearSandbox e).ready e n) := by
  refine tame_clearSandbox.piece ?_ ?_ rfl (piece_ready ?_)
  · simp
  · simp
  · simpa using hgone

theorem piece_afterCheck {v : ℕ} : Piece e n made P (P.afterCheck e n s v) := by
  unfold afterCheck
  split
  · exact piece_release (.inl rfl)
  next hgone =>
    replace hgone : (P.entries e).gone = false := by simpa using hgone
    split
    · exact piece_clearReady hgone
    · split
      · exact piece_persist (.inr rfl) (by simp) hgone
      · exact piece_ready hgone

theorem piece_prepareFails : Piece e n made P (P.prepareFails e, .ended) := by
  refine { tame_prepareFails with
    of := .ended, holds := .inr ⟨rfl, ?_⟩, session := by simp [Task.session]
    returned := .inl ?_, writesOn := .inl ⟨rfl, ?_⟩ }
  · simp [prepareFails]
  · unfold prepareFails
    split <;> rfl
  · unfold prepareFails
    split <;> simp

/-- The sandbox that is put into the entry is new. -/
theorem piece_install {origin : Option Journal} :
    Piece e n (fun s => s = ⟨e, P.nextSandbox, origin⟩) P (P.install e n origin) := by
  have hnext : Tame e (fun s => s = ⟨e, P.nextSandbox, origin⟩) P
      { P with nextSandbox := P.nextSandbox + 1 } :=
    { Local.refl, SameStore.refl with sandbox := fun _ h => .inl h }
  simp only [install]
  split
  · exact hnext.piece rfl rfl rfl (piece_prepares _)
  next hgone =>
    refine hnext.piece rfl rfl rfl ?_
    refine Tame.piece ?_ ?_ ?_ ?_ (piece_lease ?_ ?_)
    · exact { Local.modify (.inl rfl), SameStore.refl with
        sandbox := fun s h => .inr (by simpa using h.symm) }
    · simp
    · simp
    · rfl
    · simp
    · simpa using hgone

theorem piece_releases : Piece e n made P (P.releases .release e n) := by
  unfold releases
  split
  · exact piece_release (.inr rfl)
  next hgone =>
    split
    · exact piece_release (.inr rfl)
    next s hs =>
      exact piece_persist (.inl rfl) (fun _ => hs) (by simpa using hgone)

end

/-! ## `_prepare` -/

/-- What `_prepare` puts into the entry: a new sandbox, or one restored from
the journal it has loaded. -/
def Preparing.makes (e : ℕ) (p : Preparing) (s : Sandbox) : Prop :=
  s.entry = e ∧ (s.origin = none ∨ ∃ floor o i j, p = .loads floor o i j ∧ s.origin = some j)

section

variable {owner session : List ℕ} {e n : ℕ} {P P' : Pool} {p : Preparing} {c : Task}

theorem Piece.imp {made made' : Sandbox → Prop} {r : Pool × Task} (h : Piece e n made P r)
    (himp : ∀ s, made s → made' s) : Piece e n made' P r :=
  { h with sandbox := fun s hs => (h.sandbox s hs).imp id (himp s) }

/-- **A step of `_prepare`.** -/
theorem PrepareStep.piece (h : PrepareStep owner session e n P p P' c) :
    Piece e n (p.makes e) P (P', c) := by
  cases h with
  | raises => exact piece_prepareFails
  | checks | readsFloor | readsJournal | opens => exact piece_prepares _
  | checked => exact piece_afterCheck
  | empty =>
    refine (tame_counter _).piece ?_ ?_ rfl (piece_prepares _) <;> simp
  | created =>
    refine piece_install.imp fun s hs => ?_
    rw [hs]
    exact ⟨rfl, .inl rfl⟩
  | @loaded floor o i j _ =>
    have hcounter : Tame e ((Preparing.loads floor o i j).makes e) P
        (P.modify e ({ · with counter := j.counter })) := tame_counter j.counter
    have hinstall : Piece e n ((Preparing.loads floor o i j).makes e)
        (P.modify e ({ · with counter := j.counter })) _ :=
      piece_install.imp fun s hs => by
        rw [hs]
        exact ⟨rfl, .inr ⟨floor, o, i, j, rfl, rfl⟩⟩
    have hlock : ((P.modify e ({ · with counter := j.counter })).entries e).lock
        = (P.entries e).lock := by simp
    have hquiet : ((P.modify e ({ · with counter := j.counter })).entries e).quiet
        = (P.entries e).quiet := by simp
    simp only [restore]
    split
    · exact hcounter.piece hlock hquiet rfl hinstall
    · exact { hcounter.piece hlock hquiet rfl hinstall with }
  | discards => exact piece_release (.inl rfl)

end

/-! ## `_persist` -/

section

variable {rules : Rules} {owner session : List ℕ} {e n : ℕ} {s : Sandbox}
variable {P P' : Pool} {w : Writing} {out : Written}

/-- **What a step of `_persist` does to its entry.** -/
structure WriteEffect (e : ℕ) (P P' : Pool) (out : Written) : Prop extends Local e P P' where
  lock_eq : (P'.entries e).lock = (P.entries e).lock
  quiet : (P'.entries e).quiet = (P.entries e).quiet
  sandbox : (P'.entries e).sandbox = (P.entries e).sandbox ∨ (P'.entries e).sandbox = none
  returned : P'.returned = P.returned
  /-- An entry is forgotten only as `_persist` raises. -/
  gone_eq : (P'.entries e).gone = (P.entries e).gone ∨ out = .raises

theorem writeEffect_refl : WriteEffect e P P out :=
  { Local.refl with
    lock_eq := rfl, quiet := rfl, sandbox := .inl rfl, returned := rfl, gone_eq := .inl rfl }

theorem WriteEffect.trans {pool'' : Pool} (h : WriteEffect e P P' .returns)
    (h' : WriteEffect e P' pool'' out) : WriteEffect e P pool'' out :=
  { h.toLocal.trans h'.toLocal with
    lock_eq := h'.lock_eq.trans h.lock_eq
    quiet := h'.quiet.trans h.quiet
    sandbox := by
      rcases h'.sandbox with h2 | h2
      · rw [h2]
        exact h.sandbox
      · exact .inr h2
    returned := h'.returned.trans h.returned
    gone_eq := by
      have hgone : (P'.entries e).gone = (P.entries e).gone := by simpa using h.gone_eq
      rw [← hgone]
      exact h'.gone_eq }

theorem writeEffect_clear : WriteEffect e P (P.clearSandbox e) out := by
  refine { local_clearSandbox with
    lock_eq := ?_, quiet := ?_, sandbox := .inr ?_, returned := rfl, gone_eq := .inl ?_ } <;>
    simp

theorem writeEffect_spend : WriteEffect e P (P.spend e) .raises := by
  refine { local_spend with
    lock_eq := ?_, quiet := ?_, sandbox := .inr ?_, returned := rfl, gone_eq := .inr rfl } <;>
    simp [spend]

theorem writeEffect_wroteAll {spent : Bool} :
    WriteEffect e P (P.wroteAll e spent).1 (P.wroteAll e spent).2 := by
  unfold wroteAll
  split
  · exact writeEffect_spend
  · exact writeEffect_refl

theorem writeEffect_counter (c : ℕ) :
    WriteEffect e P (P.modify e ({ · with counter := c })) out := by
  refine { (tame_counter c : Tame e makesNone P _).toLocal with
    lock_eq := ?_, quiet := ?_, sandbox := .inl ?_, returned := rfl, gone_eq := .inl ?_ } <;>
    simp

/-- **A step of `_persist`.** -/
theorem WriteStep.effect (h : WriteStep rules owner session e n s P w P' out) :
    WriteEffect e P P' out := by
  cases h with
  | stale => exact writeEffect_clear
  | spendsLate => exact writeEffect_spend
  | journalDeleted => exact writeEffect_wroteAll
  | counterSetLate => exact writeEffect_counter _
  | @counterSet c spent j hlive =>
    have hcounter : WriteEffect e P (P.modify e ({ · with counter := c })) .returns :=
      writeEffect_counter c
    have hsaved : WriteEffect e P
        { P.modify e ({ · with counter := c }) with saved := some j } .returns :=
      { hcounter with }
    exact hsaved.trans writeEffect_wroteAll
  | spends | setsJournal | setsCounter | deletesJournal => exact { writeEffect_refl with }
  | _ => exact writeEffect_refl

/-- **The end of `_persist`** in a release or in `_prepare`: the entry is quiet
again, and the caller goes on. -/
theorem piece_persisted {who : Who} (hwho : who = .release ∨ who = .prepare) (P : Pool) (e n : ℕ)
    (s : Sandbox) (returned : Bool) :
    Piece e n makesNone (P.modify e ({ · with quiet := true })) (P.persisted who e n s returned) ∧
      (P.persisted who e n s returned).2.writesOn = none := by
  rcases hwho with rfl | rfl
  · simp only [persisted]
    split
    · refine ⟨tame_clearSandbox.piece ?_ ?_ rfl (piece_release (.inr rfl)), rfl⟩ <;> simp
    · exact ⟨piece_release (.inr rfl), rfl⟩
  · simp only [persisted]
    split
    · split
      · exact ⟨piece_release (.inl rfl), rfl⟩
      next hgone =>
        replace hgone := (Bool.not_eq_true _).mp hgone
        split
        · exact ⟨piece_clearReady hgone, writesOn_ready⟩
        · exact ⟨piece_ready hgone, writesOn_ready⟩
    · exact ⟨piece_prepareFails, rfl⟩

end

/-! ## A task's step on its own entry -/

/-- **A step of a task that has a lease**, on the entry of that lease. -/
structure Own (e n : ℕ) (P : Pool) (c : Task) (P' : Pool) (c' : Task) : Prop
    extends Local e P P' where
  of : c'.Of e n
  holds : (c'.holds = some (e, n) ∧ (P'.entries e).lock = (P.entries e).lock) ∨
    (c'.holds = none ∧ (P'.entries e).lock = none)
  home : ∀ s, (P'.entries e).sandbox = some s → (P.entries e).sandbox = some s ∨ s.entry = e
  leased : ∀ e' n' s, c' = .leased e' n' s →
    (P'.entries e).sandbox = some s ∧ (P'.entries e).gone = false
  session : ∀ s, c'.session = some s → (P'.entries e).sandbox = some s ∨ c.session = some s
  /-- A store begins on an entry that is not gone, or goes on. -/
  writesOn : (c'.writesOn = none ∧
      ((P'.entries e).quiet = (P.entries e).quiet ∨ c.writesOn = some e)) ∨
    (c'.writesOn = some e ∧ (((P'.entries e).quiet = false ∧ (P'.entries e).gone = false) ∨
      (c.writesOn = some e ∧ (P'.entries e).quiet = (P.entries e).quiet ∧
        (P'.entries e).gone = (P.entries e).gone)))

section

variable {rules : Rules} {owner session : List ℕ} {e n : ℕ} {s : Sandbox}
variable {P P' : Pool} {c c' : Task} {w : Writing} {out : Written}
variable {made : Sandbox → Prop}

theorem Piece.own (h : Piece e n made P (P', c')) (hmade : ∀ s, made s → s.entry = e) :
    Own e n P c P' c' :=
  { h.toLocal with
    of := h.of
    holds := h.holds
    home := fun s hs => (h.sandbox s hs).imp id (hmade s)
    leased := fun e' n' s hs => h.session s (by rw [hs]; rfl)
    session := fun s hs => .inl (h.session s hs).1
    writesOn := by
      rcases h.writesOn with ⟨h1, h2⟩ | ⟨h1, h2, h3⟩
      · exact .inl ⟨h1, .inl h2⟩
      · exact .inr ⟨h1, .inl ⟨h2, h3⟩⟩ }

theorem PrepareStep.own {p : Preparing} (h : PrepareStep owner session e n P p P' c') :
    Own e n P c P' c' :=
  h.piece.own fun _ hs => hs.1

theorem own_enter : Own e n P c (P.enter e n).1 (P.enter e n).2 :=
  Piece.own (piece_enter : Piece e n makesNone P _) fun _ h => h.elim

theorem own_releases : Own e n P c (P.releases .release e n).1 (P.releases .release e n).2 :=
  Piece.own (piece_releases : Piece e n makesNone P _) fun _ h => h.elim

/-- **A step of `_persist` for a lease.** -/
theorem WriteStep.own {who : Who} (hwho : who = .release ∨ who = .prepare)
    (h : WriteStep rules owner session e n s P w P' out) :
    Own e n P (.writes who e n s w) (P'.wrote who e n s out).1
      (P'.wrote who e n s out).2 := by
  have he := h.effect
  have hsame : ∀ s', (P'.entries e).sandbox = some s' → (P.entries e).sandbox = some s' := by
    intro s' hs'
    rcases he.sandbox with h1 | h1
    · rw [← h1]
      exact hs'
    · rw [h1] at hs'
      simp at hs'
  -- the end of `_persist` is a piece that follows what was done before
  have hends : ∀ returned, Own e n P (.writes who e n s w)
      (P'.persisted who e n s returned).1 (P'.persisted who e n s returned).2 := by
    intro returned
    obtain ⟨hpiece, hnone⟩ := piece_persisted hwho P' e n s returned
    have hquiet : Tame e makesNone P' (P'.modify e ({ · with quiet := true })) :=
      tame_quiet true
    have hlock : ((P'.modify e ({ · with quiet := true })).entries e).lock
        = (P.entries e).lock := by
      simpa using he.lock_eq
    exact { (he.toLocal.trans hquiet.toLocal).trans hpiece.toLocal with
      of := hpiece.of
      holds := hpiece.holds.imp (fun hh => ⟨hh.1, hh.2.trans hlock⟩) id
      home := fun s' hs' => by
        rcases hpiece.sandbox s' hs' with h1 | h1
        · exact .inl (hsame s' (by simpa using h1))
        · exact h1.elim
      leased := fun e' n' s' hs' => hpiece.session s' (by rw [hs']; rfl)
      session := fun s' hs' => .inl (hpiece.session s' hs').1
      writesOn := .inl ⟨hnone, .inr rfl⟩ }
  cases out with
  | goes w' =>
    have hgone : (P'.entries e).gone = (P.entries e).gone := by simpa using he.gone_eq
    exact { he.toLocal with
      of := by
        rcases hwho with rfl | rfl
        · exact .release _ _
        · exact .prepare _ _
      holds := by rcases hwho with rfl | rfl <;> exact .inl ⟨rfl, he.lock_eq⟩
      home := fun s' hs' => .inl (hsame s' hs')
      leased := by simp [wrote]
      session := fun s' hs' => .inr (by rcases hwho with rfl | rfl <;> exact hs')
      writesOn := .inr ⟨rfl, .inr ⟨rfl, he.quiet, hgone⟩⟩ }
  | returns => exact hends true
  | raises => exact hends false

/-! ## Steps without a lease -/

/-- **A release by a task without the lease**, as far as the entries go. -/
theorem tame_releases : Tame e made P (P.releases .stray e n).1 := by
  unfold releases
  split
  · exact tame_release
  · split
    · exact tame_release
    · exact tame_quiet false

/-- **The end of a step of `_persist`** for a task without the lease. -/
theorem unleased_wrote {who : Who} (hwho : who = .stray ∨ who = .close) :
    Tame e made P (P.wrote who e n s out).1 ∧
      (P.wrote who e n s out).2.holds = none ∧ (P.wrote who e n s out).2.session = none := by
  have hpersisted : ∀ returned, Tame e made P (P.persisted who e n s returned).1 ∧
      (P.persisted who e n s returned).2.holds = none ∧
      (P.persisted who e n s returned).2.session = none := by
    intro returned
    rcases hwho with rfl | rfl
    · simp only [persisted]
      split
      · exact ⟨(tame_quiet true).trans (tame_clearSandbox.trans tame_release), rfl, rfl⟩
      · exact ⟨(tame_quiet true).trans tame_release, rfl, rfl⟩
    · exact ⟨tame_quiet true, rfl, rfl⟩
  cases out with
  | goes w' =>
    refine ⟨Tame.refl, ?_⟩
    rcases hwho with rfl | rfl <;> exact ⟨rfl, rfl⟩
  | returns => exact hpersisted true
  | raises => exact hpersisted false

/-- **A step of `_persist` works on its entry**, whoever has called it. -/
theorem WriteStep.wroteLocal {who : Who} (h : WriteStep rules owner session e n s P w P' out) :
    Local e P (P'.wrote who e n s out).1 := by
  have hother : who = .stray ∨ who = .close → Local e P (P'.wrote who e n s out).1 := fun hwho =>
    have htame : Tame e makesNone P' (P'.wrote who e n s out).1 := (unleased_wrote hwho).1
    h.effect.toLocal.trans htame.toLocal
  cases who with
  | release => exact (h.own (.inl rfl)).toLocal
  | prepare => exact (h.own (.inr rfl)).toLocal
  | stray => exact hother (.inl rfl)
  | close => exact hother (.inr rfl)

end

variable {P : Pool}

/-- The lock of an entry is taken. -/
theorem acquire_self (P : Pool) (e : ℕ) :
    (P.acquire e).entries e = { P.entries e with lock := some P.clock } := by
  simp [acquire]

theorem acquire_other {e e' : ℕ} (h : e' ≠ e) : (P.acquire e).entries e' = P.entries e' := by
  simp [acquire, h]

/-- Of all entries it leaves all but the lock. -/
theorem acquire_entry (P : Pool) (e e' : ℕ) : (P.acquire e).entries e' =
    { P.entries e' with lock := if e' = e then some P.clock else (P.entries e').lock } := by
  by_cases he : e' = e
  · rw [he, acquire_self, if_pos rfl]
  · rw [acquire_other he, if_neg he]

/-- A lock that is held once one is taken is the new one, or was held. -/
theorem acquire_locks {e e' n : ℕ} (hl : ((P.acquire e).entries e').lock = some n) :
    n = P.clock ∨ (P.entries e').lock = some n := by
  rw [acquire_entry] at hl
  simp only at hl
  split at hl
  · exact .inl (by simpa using hl.symm)
  · exact .inr hl

/-- So of the marks of an entry. -/
theorem markGone_entry (P : Pool) (e e' : ℕ) : (P.markGone e).entries e' =
    { P.entries e' with gone := if e' = e then true else (P.entries e').gone } := by
  by_cases he : e' = e <;> simp [he]

/-- An entry is made. -/
theorem add_self (P : Pool) (x : Entry) : (P.add x).entries P.nextEntry = x := by
  simp [add]

theorem add_other {x : Entry} {e : ℕ} (h : e ≠ P.nextEntry) :
    (P.add x).entries e = P.entries e := by
  simp [add, h]

theorem add_entry (P : Pool) (e : ℕ) :
    (P.add .new).entries e = .new ∨ (P.add .new).entries e = P.entries e := by
  by_cases he : e = P.nextEntry
  · exact .inl (by rw [he, add_self])
  · exact .inr (add_other he)

/-- An entry that has what a new one has not was there before. -/
theorem add_entry_of {F : Entry → Prop} (h : F ((P.add .new).entries e))
    (hnew : ¬F .new := by simp) : (P.add .new).entries e = P.entries e :=
  (add_entry P e).resolve_left fun heq => hnew (heq ▸ h)

/-! ## `drop` -/

/-- Two pools with the same entries. -/
structure SameEntries (P P' : Pool) : Prop where
  entries : P'.entries = P.entries
  current : P'.current = P.current
  nextEntry : P'.nextEntry = P.nextEntry
  clock : P'.clock = P.clock
  closed : P'.closed = P.closed
  drops : P'.drops = P.drops
  returned : P'.returned = P.returned

theorem SameEntries.refl : SameEntries P P := ⟨rfl, rfl, rfl, rfl, rfl, rfl, rfl⟩

section

variable {rules : Rules} {b n : ℕ} {old : Option ℕ} {P P' : Pool} {p : Dropping} {c : Task}

/-- **A step of `drop`** works on the store, or takes the barrier away. -/
theorem DropStep.cases (h : DropStep rules b n old P p P' c) :
    (∃ p', c = .drops b n old p' ∧ SameEntries P P') ∨
      (c = .ended ∧ P'.entries = (P.unbar b).entries ∧
        P'.current = (P.unbar b).current ∧ P'.nextEntry = P.nextEntry ∧
        P.clock ≤ P'.clock ∧ P'.closed = P.closed ∧ P'.returned = P.returned) := by
  cases h with
  | returns => exact .inr ⟨rfl, rfl, rfl, rfl, Nat.le_succ _, rfl, rfl⟩
  | aborts => exact .inr ⟨rfl, rfl, rfl, rfl, le_rfl, rfl, rfl⟩
  | deletes | setsCounter => exact .inl ⟨_, rfl, ⟨rfl, rfl, rfl, rfl, rfl, rfl, rfl⟩⟩
  | _ => exact .inl ⟨_, rfl, SameEntries.refl⟩

/-- The barrier that `drop` puts in the session's place. -/
theorem barricade_self (P : Pool) :
    P.barricade.entries P.nextEntry
      = { Entry.new with barrier := true, lock := some P.clock } := by
  unfold barricade
  split <;> simp [add, replace]

/-- The entry it replaces. -/
theorem barricade_old {e : ℕ} (hne : e ≠ P.nextEntry) (hold : P.current = some e) :
    P.barricade.entries e
      = { P.entries e with
          dropped := true, droppedAt := P.clock, gone := true, sandbox := none } := by
  simp [barricade, hold, add, replace, hne]

theorem barricade_other {e : ℕ} (hne : e ≠ P.nextEntry) (hold : P.current ≠ some e) :
    P.barricade.entries e = P.entries e := by
  unfold barricade
  split
  next e' he' =>
    have hne' : e ≠ e' := fun h => hold (h ▸ he')
    simp [add, replace, hne, hne']
  · simp [add, hne]

/-- No entry's lock changes, and no sandbox comes in. -/
theorem barricade_keeps {e : ℕ} (hne : e ≠ P.nextEntry) :
    (P.barricade.entries e).lock = (P.entries e).lock ∧
      (P.barricade.entries e).quiet = (P.entries e).quiet ∧
      ((P.barricade.entries e).sandbox = (P.entries e).sandbox ∨
        (P.barricade.entries e).sandbox = none) := by
  by_cases hold : P.current = some e
  · rw [barricade_old hne hold]
    exact ⟨rfl, rfl, .inr rfl⟩
  · rw [barricade_other hne hold]
    exact ⟨rfl, rfl, .inl rfl⟩

end

end Pydeno.Sessions
