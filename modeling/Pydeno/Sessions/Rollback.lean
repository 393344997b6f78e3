import Pydeno.Sessions.Helpers.Counters
import Pydeno.Sessions.Leases
/-!
# No journal is rolled back

Whoever can write to the store can put an older journal of a session back.
`_restore` refuses it by its counter: every journal is bound to its owner, its
session and its counter (`bound_injective`), and one whose counter is below the
recorded one is stale. So a restored journal is the session's own, and not older
than the last one that was stored with its counter (`Genuine`), as long as each
journal has a higher counter than all before it and the recorded counter does
not fall (`CountOk`).

The pool does not always see to that. When the counter cannot be recorded, the
next journal is stored under the same one, and the older of the two is as good
as the newer (`genuine_fails`).
-/

namespace Pydeno.Sessions

open List Task.Blank Preparing SameStore

/-! ## What a signature is bound to -/

/-- No colon is in an id. -/
theorem colon_not_mem_of_checkId {id : List ℕ} (h : checkId id = true) : 58 ∉ id := by
  intro hmem
  unfold checkId at h
  simp only [Bool.and_eq_true, all_eq_true] at h
  simpa using h.2 58 hmem

/-- Texts without a separator are told apart by it. -/
theorem append_sep_injective {a b x y : List ℕ} {sep : ℕ} (ha : sep ∉ a) (hb : sep ∉ b)
    (h : a ++ sep :: x = b ++ sep :: y) : a = b ∧ x = y := by
  induction a generalizing b with
  | nil =>
    cases b with
    | nil => exact ⟨rfl, by simpa using h⟩
    | cons c b => exact absurd (List.cons.inj h).1 fun hc => hb (by simp [hc])
  | cons c a ih =>
    cases b with
    | nil => exact absurd (List.cons.inj h).1.symm fun hc => ha (by simp [hc])
    | cons c' b =>
      obtain ⟨rfl, h'⟩ := List.cons.inj h
      simp only [mem_cons, not_or] at ha hb
      obtain ⟨rfl, rfl⟩ := ih ha.2 hb.2 h'
      exact ⟨rfl, rfl⟩

/-- **A signature names its owner and its session.** -/
theorem bound_injective {o i o' i' : List ℕ} {counter : ℕ} (ho : checkId o = true)
    (ho' : checkId o' = true) (hi : checkId i = true) (hi' : checkId i' = true)
    (h : bound o i counter = bound o' i' counter) : o = o' ∧ i = i' := by
  have hcolon : Wire.ascii ":" = [58] := rfl
  simp only [bound, hcolon, append_assoc, singleton_append] at h
  obtain ⟨rfl, h1⟩ := append_sep_injective (colon_not_mem_of_checkId ho)
    (colon_not_mem_of_checkId ho') h
  obtain ⟨rfl, -⟩ := append_sep_injective (colon_not_mem_of_checkId hi)
    (colon_not_mem_of_checkId hi') h1
  exact ⟨rfl, rfl⟩

/-! ## The property -/

/-- **A restored journal is the session's own**, one that the pool has written,
and not older than the last that was stored. -/
def Genuine (owner session : List ℕ) (P : Pool) : Prop :=
  ∀ r ∈ P.restored, ∃ j, r.value = .journal owner session j ∧ r.value ∈ P.ever ∧
    ∀ j0, r.saved = some j0 → j0.number ≤ j.number

/-- What was restored is as genuine when more values have been written. -/
theorem Genuine.mono {owner session : List ℕ} {P P' : Pool} (h : Genuine owner session P)
    (hever : P.ever ⊆ P'.ever) (hrestored : P'.restored = P.restored) :
    Genuine owner session P' := by
  intro r hr
  obtain ⟨j, hj, hmem, hsaved⟩ := h r (hrestored ▸ hr)
  exact ⟨j, hj, hever hmem, hsaved⟩

/-! ## The invariant -/

/-- **The store's invariant.** -/
structure StoreOk (owner session : List ℕ) (P : Pool) : Prop where
  numbers : ∀ j, Value.journal owner session j ∈ P.ever → j.number < P.written
  increasing : ∀ j j', Value.journal owner session j ∈ P.ever →
    Value.journal owner session j' ∈ P.ever → j.number < j'.number → j.counter < j'.counter
  ids : ∀ o i j, Value.journal o i j ∈ P.ever → checkId o = true ∧ checkId i = true
  journal : ∀ v, P.journal = some v → v ∈ P.ever
  saved : ∀ j, P.saved = some j → Value.journal owner session j ∈ P.ever ∧ j.counter ≤ P.counter
  genuine : Genuine owner session P

/-- The journal that `_write` has stored, and its counter. -/
def Writing.stored : Writing → Option (Journal × ℕ)
  | .journalSet c _ j => some (j, c)
  | .setsCounter c _ j => some (j, c)
  | .counterSet c _ j => some (j, c)
  | _ => none

/-- The floor below which `_restore` takes no counter. -/
def Preparing.floor : Preparing → Option ℕ
  | .readsJournal f => some f
  | .gotJournal f _ => some f
  | .loads f _ _ _ => some f
  | _ => none

/-- **What a task knows of the store.** -/
structure StoreTask (owner session : List ℕ) (P : Pool) (c : Task) : Prop where
  stored : ∀ who e n s w j k, c = .writes who e n s w → w.stored = some (j, k) →
    Value.journal owner session j ∈ P.ever ∧ j.counter = k
  counted : ∀ who e n s k spent j, c = .writes who e n s (.counterSet k spent j) → k ≤ P.counter
  floor : ∀ e n p f, c = .prepares e n p → p.floor = some f → (P.entries e).gone = false →
    ∀ j, P.saved = some j → j.counter ≤ f
  got : ∀ e n f v, c = .prepares e n (.gotJournal f (some v)) → v ∈ P.ever
  loads : ∀ e n f o i j, c = .prepares e n (.loads f o i j) →
    Value.journal o i j ∈ P.ever ∧ f ≤ j.counter

section

variable {rules : Rules} {owner session : List ℕ} {e n : ℕ} {P P' : Pool} {c c' d : Task}

/-- A task that has read nothing knows nothing. -/
theorem Task.Blank.storeTask (h : c.Blank P) : StoreTask owner session P c where
  stored := by
    rintro who e n s w j k rfl hw
    cases w <;> simp_all [Task.Blank, Writing.stored]
  counted := by
    rintro who e n s k spent j rfl
    simp [Task.Blank] at h
  floor := by
    rintro e n p f rfl hf
    cases p <;> simp_all [Task.Blank, floor]
  got := by
    rintro e n f v rfl
    simp [Task.Blank] at h
  loads := by
    rintro e n f o i j rfl
    simp [Task.Blank] at h

theorem StoreOk.same (hS : StoreOk owner session P)
    (h : SameStore P P' := by exact ⟨rfl, rfl, rfl, rfl, rfl, rfl⟩)
    (hrestored : P'.restored = P.restored := by rfl) : StoreOk owner session P' where
  numbers j hj := by
    rw [h.written]
    exact hS.numbers j (h.ever ▸ hj)
  increasing j j' hj hj' := hS.increasing j j' (h.ever ▸ hj) (h.ever ▸ hj')
  ids o i j hj := hS.ids o i j (h.ever ▸ hj)
  journal v hv := by
    rw [h.ever]
    exact hS.journal v (h.journal ▸ hv)
  saved j hj := by
    rw [h.ever, h.counter]
    exact hS.saved j (h.saved ▸ hj)
  genuine := hS.genuine.mono (by simp [h.ever]) hrestored

theorem Leaves.storeOk (h : Leaves e P (P', c')) (hS : StoreOk owner session P) :
    StoreOk owner session P' ∧ StoreTask owner session P' c' :=
  ⟨hS.same h.toSameStore h.restored, h.blank.storeTask⟩

variable {s : Sandbox} {w : Writing}

/-- A task that stores nothing yet. -/
theorem storeTask_writes {who : Who} (hw : w.stored = none) :
    StoreTask owner session P (.writes who e n s w) where
  stored := by
    intro who' e' n' s' w' j k h hw'
    obtain ⟨-, -, -, -, rfl⟩ := Task.writes.inj h
    simp [hw] at hw'
  counted := by
    intro who' e' n' s' k spent j h
    obtain ⟨-, -, -, -, rfl⟩ := Task.writes.inj h
    simp [Writing.stored] at hw
  floor := by simp
  got := by simp
  loads := by simp

/-- A task that has stored a journal. -/
theorem storeTask_stored {who : Who} {j : Journal} {k : ℕ}
    (hw : w.stored = some (j, k)) (hj : Value.journal owner session j ∈ P.ever)
    (hk : j.counter = k) (hcounted : ∀ spent, w = .counterSet k spent j → k ≤ P.counter) :
    StoreTask owner session P (.writes who e n s w) where
  stored := by
    intro who' e' n' s' w' j' k' h hw'
    obtain ⟨-, -, -, -, rfl⟩ := Task.writes.inj h
    obtain ⟨rfl, rfl⟩ : j = j' ∧ k = k' := by simpa using hw.symm.trans hw'
    exact ⟨hj, hk⟩
  counted := by
    intro who' e' n' s' k' spent j' h
    obtain ⟨-, -, -, -, rfl⟩ := Task.writes.inj h
    obtain ⟨rfl, rfl⟩ : j' = j ∧ k' = k := by simpa [Writing.stored] using hw
    exact hcounted spent rfl
  floor := by simp
  got := by simp
  loads := by simp

/-- **A journal is stored** under a counter above all before it. -/
theorem StoreOk.setsJournal (hS : StoreOk owner session P) {k : ℕ}
    (howner : checkId owner = true) (hsession : checkId session = true)
    (hfresh : ∀ j, Value.journal owner session j ∈ P.ever → j.counter < k) :
    StoreOk owner session
      { P with
        journal := some (.journal owner session ⟨k, n, P.written⟩)
        ever := P.ever ++ [.journal owner session ⟨k, n, P.written⟩]
        written := P.written + 1 } where
  numbers j hj := by
    rcases mem_append.1 hj with hj | hj
    · exact (hS.numbers j hj).trans (Nat.lt_succ_self _)
    · obtain rfl : j = ⟨k, n, P.written⟩ := by simpa using hj
      exact Nat.lt_succ_self _
  increasing j j' hj hj' hlt := by
    rcases mem_append.1 hj with hj | hj <;> rcases mem_append.1 hj' with hj' | hj'
    · exact hS.increasing j j' hj hj' hlt
    · obtain rfl : j' = ⟨k, n, P.written⟩ := by simpa using hj'
      exact hfresh j hj
    · -- the new journal has the highest number
      obtain rfl : j = ⟨k, n, P.written⟩ := by simpa using hj
      exact absurd (hS.numbers j' hj') (Nat.not_lt.2 hlt.le)
    · obtain rfl : j = ⟨k, n, P.written⟩ := by simpa using hj
      obtain rfl : j' = ⟨k, n, P.written⟩ := by simpa using hj'
      exact absurd hlt (lt_irrefl _)
  ids o i j hj := by
    rcases mem_append.1 hj with hj | hj
    · exact hS.ids o i j hj
    · obtain ⟨rfl, rfl, -⟩ : o = owner ∧ i = session ∧ j = ⟨k, n, P.written⟩ := by
        simpa using hj
      exact ⟨howner, hsession⟩
  journal v hv := by
    obtain rfl : Value.journal owner session ⟨k, n, P.written⟩ = v := by simpa using hv
    simp
  saved j hj := ⟨mem_append_left _ (hS.saved j hj).1, (hS.saved j hj).2⟩
  genuine := hS.genuine.mono (subset_append_left _ _) rfl

theorem wroteAll_restored (e : ℕ) (spent : Bool) :
    (P.wroteAll e spent).1.restored = P.restored := by
  unfold Pool.wroteAll
  split <;> rfl

/-- **A step of `_persist` keeps the store's invariant.** -/
theorem WriteStep.storeOk {who : Who} {out : Written}
    (howner : checkId owner = true) (hsession : checkId session = true)
    (h : WriteStep rules owner session e n s P w P' out) (hS : StoreOk owner session P)
    (hK : w.Knows owner session P (P.entries e))
    (hT : StoreTask owner session P (.writes who e n s w)) :
    StoreOk owner session P' ∧
      ∀ w', out = .goes w' → StoreTask owner session P' (.writes who e n s w') := by
  cases h with
  | fails | dropped | dumpedLate => exact ⟨hS, by simp⟩
  | reads | current | dumped | tooLarge | journalSetLate =>
    exact ⟨hS, fun w' h => by cases h; exact storeTask_writes rfl⟩
  | stale | spendsLate => exact ⟨hS.same, by simp⟩
  | spends | counterSetLate =>
    refine ⟨hS.same, fun w' h => ?_⟩
    cases h
    exact storeTask_writes rfl
  | setsJournal =>
    refine ⟨hS.setsJournal howner hsession fun j hj => ?_, fun w' h => ?_⟩
    · exact (hK.2.2 j hj).trans_lt hK.2.1
    · cases h
      exact storeTask_stored rfl (by simp) rfl (by simp)
  | journalSet hlive =>
    refine ⟨hS, fun w' h => ?_⟩
    cases h
    obtain ⟨hj, hk⟩ := hT.stored _ _ _ _ _ _ _ rfl rfl
    exact storeTask_stored rfl hj hk (by simp)
  | setsCounter =>
    obtain ⟨hj, hk⟩ := hT.stored _ _ _ _ _ _ _ rfl rfl
    refine ⟨{ hS with saved := fun j hj => ?_, genuine := hS.genuine }, fun w' h => ?_⟩
    · exact ⟨(hS.saved j hj).1, (hS.saved j hj).2.trans hK.2.1.le⟩
    · cases h
      exact storeTask_stored rfl hj hk fun _ _ => le_rfl
  | @counterSet k spent j hlive =>
    obtain ⟨hj, hk⟩ := hT.stored _ _ _ _ _ _ _ rfl rfl
    have hcounted := hT.counted _ _ _ _ _ _ _ rfl
    have hsaved : StoreOk owner session
        { P.modify e ({ · with counter := k }) with saved := some j } := by
      refine { hS with saved := fun j' hj' => ?_, genuine := hS.genuine }
      obtain rfl : j = j' := by simpa using hj'
      exact ⟨hj, hk.le.trans hcounted⟩
    exact ⟨hsaved.same (wroteAll_same _) (wroteAll_restored _ _),
      fun w' h => absurd h (wroteAll_goes _)⟩
  | deletesJournal =>
    refine ⟨{ hS with journal := by simp, genuine := hS.genuine }, fun w' h => ?_⟩
    cases h
    exact storeTask_writes rfl
  | journalDeleted =>
    exact ⟨hS.same (wroteAll_same _) (wroteAll_restored _ _),
      fun w' h => absurd h (wroteAll_goes _)⟩

/-- **What `_restore` accepts is genuine.** -/
theorem StoreTask.genuine {f : ℕ} {o i : List ℕ} {j : Journal} (hS : StoreOk owner session P)
    (hT : StoreTask owner session P (.prepares e n (.loads f o i j)))
    (howner : checkId owner = true) (hsession : checkId session = true)
    (hbound : bound o i j.counter = bound owner session j.counter)
    (hlive : (P.entries e).gone = false) :
    Value.journal o i j = .journal owner session j ∧ Value.journal o i j ∈ P.ever ∧
      ∀ j0, P.saved = some j0 → j0.number ≤ j.number := by
  obtain ⟨hever, hfloor⟩ := hT.loads e n f o i j rfl
  obtain ⟨ho, hi⟩ := hS.ids o i j hever
  obtain ⟨rfl, rfl⟩ := bound_injective ho howner hi hsession hbound
  refine ⟨rfl, hever, fun j0 hj0 => ?_⟩
  have hsaved := hT.floor e n _ f rfl rfl hlive j0 hj0
  by_contra hlt
  have hcounter := hS.increasing j j0 hever (hS.saved j0 hj0).1 (by omega)
  omega

theorem PrepareStep.storeOk {p : Preparing} (howner : checkId owner = true)
    (hsession : checkId session = true) (h : PrepareStep owner session e n P p P' c')
    (hS : StoreOk owner session P) (hT : StoreTask owner session P (.prepares e n p)) :
    StoreOk owner session P' ∧ StoreTask owner session P' c' := by
  cases h with
  | raises => exact leaves_prepareFails.storeOk hS
  | checks => exact ⟨hS, storeTask trivial⟩
  | checked => exact leaves_afterCheck.storeOk hS
  | @readsFloor k =>
    refine ⟨hS, ⟨by simp, by simp, ?_, by simp, by simp⟩⟩
    intro e' n' p' f h hf _ j hj
    obtain ⟨-, -, rfl⟩ := Task.prepares.inj h
    obtain rfl : max k P.counter = f := by simpa [floor] using hf
    exact (hS.saved j hj).2.trans (le_max_right _ _)
  | @readsJournal f =>
    refine ⟨hS, ⟨by simp, by simp, ?_, ?_, by simp⟩⟩
    · intro e' n' p' f' h hf
      obtain ⟨rfl, -, rfl⟩ := Task.prepares.inj h
      exact hT.floor e n _ f' rfl hf
    · intro e' n' f' v h
      obtain ⟨-, -, h'⟩ := Task.prepares.inj h
      obtain ⟨-, hv⟩ := gotJournal.inj h'
      exact hS.journal v hv
  | empty | discards =>
    exact ⟨hS.same, storeTask trivial⟩
  | @opens f o i j hfloor =>
    refine ⟨hS, ⟨by simp, by simp, ?_, by simp, ?_⟩⟩
    · intro e' n' p' f' h hf
      obtain ⟨rfl, -, rfl⟩ := Task.prepares.inj h
      exact hT.floor e n _ f' rfl hf
    · intro e' n' f' o' i' j' h
      obtain ⟨-, -, h'⟩ := Task.prepares.inj h
      obtain ⟨rfl, rfl, rfl, rfl⟩ := loads.inj h'
      exact ⟨hT.got e n f _ rfl, hfloor⟩
  | created => exact leaves_install.storeOk hS
  | @loaded f o i j hbound =>
    have hcounter : StoreOk owner session (P.modify e ({ · with counter := j.counter })) :=
      hS.same
    have hinstall : Leaves e (P.modify e ({ · with counter := j.counter }))
      ((P.modify e ({ · with counter := j.counter })).install e n (some j)) := leaves_install
    simp only [Pool.restore]
    split
    · exact hinstall.storeOk hcounter
    next hgone =>
      have hlive : (P.entries e).gone = false := by simpa using hgone
      obtain ⟨hvalue, hever, hsaved⟩ := StoreTask.genuine hS hT howner hsession hbound hlive
      obtain ⟨hok, htask⟩ := hinstall.storeOk hcounter
      refine ⟨{ hok with genuine := fun r hr => ?_ }, { htask with }⟩
      rcases mem_append.1 hr with hr | hr
      · exact hok.genuine r hr
      · obtain rfl := mem_singleton.1 hr
        exact ⟨j, hvalue, hinstall.ever ▸ hever, hsaved⟩

theorem DropStep.storeOk {b : ℕ} {old : Option ℕ} {p : Dropping}
    (h : DropStep rules b n old P p P' c') (hS : StoreOk owner session P)
    (hK : p.Knows owner session P old) :
    StoreOk owner session P' ∧ StoreTask owner session P' c' := by
  cases h with
  | deletes => exact ⟨{ hS with journal := by simp, genuine := hS.genuine }, storeTask trivial⟩
  | setsCounter =>
    refine ⟨{ hS with saved := fun j hj => ?_, genuine := hS.genuine }, storeTask trivial⟩
    exact ⟨(hS.saved j hj).1, (hS.saved j hj).2.trans hK.1⟩
  | returns | aborts =>
    exact ⟨hS.same, storeTask trivial⟩
  | _ => exact ⟨hS, storeTask trivial⟩

/-- **A step keeps the store's invariant.** -/
theorem Step.storeOk (howner : checkId owner = true) (hsession : checkId session = true)
    (hs : Step rules owner session P c P' c') (hS : StoreOk owner session P)
    (hK : CountTask owner session P c) (hT : StoreTask owner session P c) :
    StoreOk owner session P' ∧ StoreTask owner session P' c' := by
  cases hs with
  | creates | acquires => exact leaves_enter.storeOk hS.same
  | granted | closeBegins | closeMarks | closeClears =>
    exact ⟨hS.same, storeTask trivial⟩
  | resumes => exact leaves_enter.storeOk hS
  | prepares h => exact h.storeOk howner hsession hS hT
  | releases | stray => exact leaves_releases.storeOk hS
  | @writes pool₁ who e n s w out h =>
    obtain ⟨hS', hT'⟩ := h.storeOk howner hsession hS (hK.writes who e n s w rfl) hT
    cases out with
    | goes w' => exact ⟨hS', hT' w' rfl⟩
    | returns => exact leaves_persisted.storeOk hS'
    | raises => exact leaves_persisted.storeOk hS'
  | dropBegins =>
    refine ⟨hS.same ?_ ?_, storeTask trivial⟩
    · unfold Pool.barricade
      split <;> exact ⟨rfl, rfl, rfl, rfl, rfl, rfl⟩
    · unfold Pool.barricade
      split <;> rfl
  | drops h => exact h.storeOk hS (hK.drops _ _ _ _ rfl).2.2
  | closeWrites => exact leaves_persist.storeOk hS
  | _ => exact ⟨hS, storeTask trivial⟩

/-! ## The other tasks -/

/-- **What a step adds to the store**: values and, by a task that knows of counters,
higher ones; a journal is saved by the task that stores its entry, which was not
dropped. -/
structure StoreGrows (owner session : List ℕ) (P : Pool) (c : Task) (P' : Pool) : Prop where
  ever : P.ever ⊆ P'.ever
  counter : CountTask owner session P c → P.counter ≤ P'.counter
  saved : P'.saved = P.saved ∨ ∃ e, c.writesOn = some e ∧ (P.entries e).dropped = false

theorem SameStore.grows (h : SameStore P P') : StoreGrows owner session P c P' :=
  ⟨by simp [h.ever], fun _ => h.counter.ge, .inl h.saved⟩

theorem WriteStep.grows {who : Who} {out : Written}
    (h : WriteStep rules owner session e n s P w P' out) :
    StoreGrows owner session P (.writes who e n s w) P' := by
  cases h with
  | setsJournal => exact ⟨subset_append_left _ _, fun _ => le_rfl, .inl rfl⟩
  | setsCounter =>
    exact ⟨List.Subset.refl _, fun hK => (hK.writes _ _ _ _ _ rfl).2.1.le, .inl rfl⟩
  | @counterSet k spent j hlive =>
    refine ⟨?_, fun _ => ?_, .inr ⟨e, rfl, hlive⟩⟩
    · simp [(wroteAll_same spent).ever]
    · rw [(wroteAll_same spent).counter]
      exact le_rfl
  | journalDeleted => exact (wroteAll_same _).grows
  | stale | spends | spendsLate | counterSetLate =>
    exact grows ⟨rfl, rfl, rfl, rfl, rfl, rfl⟩
  | deletesJournal => exact ⟨List.Subset.refl _, fun _ => le_rfl, .inl rfl⟩
  | _ => exact refl.grows

theorem StoreGrows.same {P₂ : Pool} (h : StoreGrows owner session P c P') (h' : SameStore P' P₂) :
    StoreGrows owner session P c P₂ := by
  refine ⟨?_, fun hK => ?_, ?_⟩
  · rw [h'.ever]
    exact h.ever
  · rw [h'.counter]
    exact h.counter hK
  · rw [h'.saved]
    exact h.saved

theorem Step.grows (hs : Step rules owner session P c P' c') :
    StoreGrows owner session P c P' := by
  cases hs with
  | creates | acquires | resumes =>
    refine grows (SameStore.trans ?_ leaves_enter.toSameStore)
    exact ⟨rfl, rfl, rfl, rfl, rfl, rfl⟩
  | prepares h => exact h.piece.toSameStore.grows
  | releases | stray => exact leaves_releases.toSameStore.grows
  | @writes P₁ who e n s w out h =>
    have hgrows : StoreGrows owner session P (.writes who e n s w) P₁ := h.grows
    cases out with
    | goes w' => exact hgrows
    | returns => exact hgrows.same leaves_persisted.toSameStore
    | raises => exact hgrows.same leaves_persisted.toSameStore
  | dropBegins =>
    refine grows ?_
    unfold Pool.barricade
    split <;> exact ⟨rfl, rfl, rfl, rfl, rfl, rfl⟩
  | drops h =>
    cases h with
    | setsCounter =>
      exact ⟨List.Subset.refl _, fun hK => (hK.drops _ _ _ _ rfl).2.2.1, .inl rfl⟩
    | _ => exact ⟨List.Subset.refl _, fun _ => le_rfl, .inl rfl⟩
  | _ => exact ⟨List.Subset.refl _, fun _ => le_rfl, .inl rfl⟩

/-- **What the others know stays true.** Only the task that holds the lease of
the session can save a journal of it. -/
theorem StoreGrows.storeTask (h : StoreGrows owner session P c P') (hI : PoolOk P)
    (hc : TaskOk P c) (hK : CountTask owner session P c) (hd : TaskOk P d) (hR : StampsApart c d)
    (hgone : ∀ e, e < P.nextEntry → (P.entries e).gone = true → (P'.entries e).gone = true)
    (hT : StoreTask owner session P d) : StoreTask owner session P' d where
  stored who e n s w j k hd' hw := by
    obtain ⟨h1, h2⟩ := hT.stored who e n s w j k hd' hw
    exact ⟨h.ever h1, h2⟩
  counted who e n s k spent j hd' := (hT.counted who e n s k spent j hd').trans (h.counter hK)
  floor e n p f hd' hf hlive j hj := by
    have hholds : d.holds = some (e, n) := by rw [hd']; rfl
    have hlive' : (P.entries e).gone = false := by
      by_contra hg
      have := hgone e (hI.born (hd.holds e n hholds)) (by simpa using hg)
      simp [this] at hlive
    rcases h.saved with hsame | ⟨e', hw, hdropped⟩
    · exact hT.floor e n p f hd' hf hlive' j (hsame ▸ hj)
    · -- the entry of the task that saves is the one in the map, like this one
      have hnot : ¬AllGone P := fun hall => nomatch hlive'.symm.trans (hall.2 e)
      have hsaver : (P.entries e').gone = false :=
        ((hc.stored e' hw).resolve_left hnot).2.resolve_right (by simp [hdropped])
      obtain rfl : e' = e := by
        simpa using (hI.live e' hsaver).symm.trans (hI.live e hlive')
      rcases hc.writer hw with ⟨n', hn'⟩ | hall
      · exact absurd hholds (hR.entry_ne hc hd hn')
      · exact absurd hall hnot
  got e n f v hd' := h.ever (hT.got e n f v hd')
  loads e n f o i j hd' := by
    obtain ⟨h1, h2⟩ := hT.loads e n f o i j hd'
    exact ⟨h.ever h1, h2⟩

/-- The environment keeps the store's invariant, and what tasks know. -/
theorem Env.storeOk (henv : Env rules owner session P P') (hS : StoreOk owner session P) :
    StoreOk owner session P' := by
  -- a value that is not one of this session's journals
  have hother : ∀ v : Value, (∀ j, v ≠ .journal owner session j) →
      (∀ o i j, v = .journal o i j → checkId o = true ∧ checkId i = true) →
      StoreOk owner session { P with ever := P.ever ++ [v] } := by
    intro v hv hids
    have hmem : ∀ j, Value.journal owner session j ∈ P.ever ++ [v] →
        Value.journal owner session j ∈ P.ever := by
      intro j hj
      rcases mem_append.1 hj with hj | hj
      · exact hj
      · exact absurd (mem_singleton.1 hj).symm (hv j)
    refine ⟨fun j hj => hS.numbers j (hmem j hj),
      fun j j' hj hj' => hS.increasing j j' (hmem j hj) (hmem j' hj'), fun o i j hj => ?_,
      fun w hw => mem_append_left _ (hS.journal w hw), fun j hj => ?_,
      hS.genuine.mono (subset_append_left _ _) rfl⟩
    · rcases mem_append.1 hj with hj | hj
      · exact hS.ids o i j hj
      · exact hids o i j (mem_singleton.1 hj).symm
    · exact ⟨mem_append_left _ (hS.saved j hj).1, (hS.saved j hj).2⟩
  cases henv with
  | evicts | dies => exact hS.same
  | expires => exact { hS with journal := by simp, genuine := hS.genuine }
  | @others o i j howner hsession hne =>
    refine hother _ (fun j' h => ?_) fun o' i' j' h => ?_
    · obtain ⟨rfl, rfl, -⟩ := Value.journal.inj h
      exact hne rfl
    · obtain ⟨rfl, rfl, -⟩ := Value.journal.inj h
      exact ⟨howner, hsession⟩
  | counters digits => exact hother _ (by simp) (by simp)
  | @tampers v htampering hever =>
    refine { hS with journal := fun w hw => ?_, genuine := hS.genuine }
    obtain rfl : v = w := by simpa using hw
    exact hever

theorem Env.ever (henv : Env rules owner session P P') : P.ever ⊆ P'.ever := by
  cases henv with
  | others | counters => exact subset_append_left _ _
  | _ => exact List.Subset.refl _

theorem Env.storeTask (henv : Env rules owner session P P')
    (hT : StoreTask owner session P d) : StoreTask owner session P' d := by
  have hcounter : P'.counter = P.counter := by cases henv <;> rfl
  have hsaved : P'.saved = P.saved := by cases henv <;> rfl
  refine ⟨fun who e n s w j k hd hw => ?_, fun who e n s k spent j hd => ?_,
    fun e n p f hd hf hlive j hj => ?_, fun e n f v hd => henv.ever (hT.got e n f v hd),
    fun e n f o i j hd => ?_⟩
  · obtain ⟨h1, h2⟩ := hT.stored who e n s w j k hd hw
    exact ⟨henv.ever h1, h2⟩
  · rw [hcounter]
    exact hT.counted who e n s k spent j hd
  · refine hT.floor e n p f hd hf ?_ j (hsaved ▸ hj)
    by_contra hg
    simp [henv.gone_mono (e := e) (by simpa using hg)] at hlive
  · obtain ⟨h1, h2⟩ := hT.loads e n f o i j hd
    exact ⟨henv.ever h1, h2⟩

theorem storeOk_new : StoreOk owner session .new where
  numbers j hj := by simp at hj
  increasing j j' hj := by simp at hj
  ids o i j hj := by simp at hj
  journal v hv := by simp at hv
  saved j hj := by simp at hj
  genuine r hr := by simp at hr

/-! ## A pool that is being closed -/

/-- Nothing is restored any more. -/
theorem Step.restored (hs : Step rules owner session P c P' c') (hall : AllGone P) :
    P'.restored = P.restored := by
  have hopen : P.closed ≠ false := by simp [hall.1]
  cases hs with
  | creates h | acquires h | dropBegins h => exact absurd h hopen
  | resumes => exact leaves_enter.restored
  | @prepares P' e n p c' h =>
    cases h with
    | raises => exact leaves_prepareFails.restored
    | checked => exact leaves_afterCheck.restored
    | created => exact leaves_install.restored
    | @loaded f o i j hbound =>
      have hgone : ((P.modify e ({ · with counter := j.counter })).entries e).gone = true := by
        simpa using hall.2 e
      simp only [Pool.restore, hgone, if_true]
      exact leaves_install.restored
    | _ => rfl
  | releases | stray => exact leaves_releases.restored
  | @writes pool₁ who e n s w out h =>
    have hwritten : pool₁.restored = P.restored := by
      cases h with
      | counterSet | journalDeleted => exact wroteAll_restored _ _
      | _ => rfl
    cases out with
    | goes w' => exact hwritten
    | returns => exact leaves_persisted.restored.trans hwritten
    | raises => exact leaves_persisted.restored.trans hwritten
  | drops h => cases h <;> rfl
  | _ => rfl

theorem Step.allGone (hs : Step rules owner session P c P' c') (hI' : PoolOk P')
    (hall : AllGone P) : AllGone P' := by
  obtain ⟨hclosed, hnext⟩ := hs.ages.closed hall.1
  refine ⟨hclosed, fun e => ?_⟩
  by_cases he : e < P.nextEntry
  · exact hs.ages.gone e he (hall.2 e)
  · rw [hI'.unborn e (by omega)]
    rfl

theorem Env.allGone (henv : Env rules owner session P P') (hall : AllGone P) : AllGone P' := by
  have hclosed : P'.closed = P.closed := by cases henv <;> rfl
  exact ⟨hclosed.trans hall.1, fun e => henv.gone_mono (hall.2 e)⟩

end

/-! ## Over a run -/

/-- **No rollback**, in any run where no release is astray, no `_write` is cut off
between the journal and its counter, and no drop fails or meets another one: what
is restored is the session's own journal, and not older than the last that was
stored with its counter. -/
theorem restored_genuine {rules : Rules} {owner session : List ℕ}
    {sys : Interleaving.Sys Pool Task} (howner : checkId owner = true)
    (hsession : checkId session = true) (hstray : rules.stray = false)
    (hcutting : rules.cutting = false) (hcrossing : rules.crossing = false)
    (haborting : rules.aborting = false) (h : Reachable rules owner session sys) :
    Genuine owner session sys.shared := by
  -- once `close` has marked the entries, nothing is restored any more
  have hI := (Interleaving.reachable_apart
    (I := fun P => PoolOk P ∧ Genuine owner session P ∧
      (AllGone P ∨ (StoreOk owner session P ∧ CountOk owner session P)))
    (P := fun P c => TaskOk P c ∧
      (AllGone P ∨ (StoreTask owner session P c ∧ CountTask owner session P c)))
    (R := StampsApart) StampsApart.symm ?_ ?_ ?_ ?_ ?_ ?_ ?_ h).1
  · exact hI.2.1
  · exact ⟨poolOk_new, storeOk_new.genuine, .inr ⟨storeOk_new, countOk_new⟩⟩
  · intro P c P' c' hs ⟨hI, hG, hSC⟩ ⟨hP, hTK⟩
    have hkeeps := hs.keeps hstray hI hP
    by_cases hall : AllGone P
    · have hall' := hs.allGone hkeeps.poolOk hall
      exact ⟨⟨hkeeps.poolOk, hG.mono hs.grows.ever (hs.restored hall), .inl hall'⟩,
        hkeeps.taskOk, .inl hall'⟩
    · obtain ⟨hS, hC⟩ := hSC.resolve_left hall
      obtain ⟨hT, hK⟩ := hTK.resolve_left hall
      obtain ⟨hS', hT'⟩ := hs.storeOk howner hsession hS hK hT
      have hcounts := hs.counts hstray hcutting hcrossing haborting hI hP hall hC hK
      exact ⟨⟨hkeeps.poolOk, hS'.genuine, hcounts.imp id fun h => ⟨hS', h.countOk⟩⟩,
        hkeeps.taskOk, hcounts.imp id fun h => ⟨hT', h.countTask⟩⟩
  · intro P c P' c' d hs ⟨hI, _, hSC⟩ ⟨hP, hTK⟩ ⟨hd, hdTK⟩ hR
    have hkeeps := hs.keeps hstray hI hP
    obtain ⟨hd', hR'⟩ := hkeeps.others d hd hR
    refine ⟨⟨hd', ?_⟩, hR'⟩
    by_cases hall : AllGone P
    · exact .inl (hs.allGone hkeeps.poolOk hall)
    · obtain ⟨hT, hK⟩ := hTK.resolve_left hall
      obtain ⟨hdT, hdK⟩ := hdTK.resolve_left hall
      have hcounts := hs.counts hstray hcutting hcrossing haborting hI hP hall
        (hSC.resolve_left hall).2 hK
      exact hcounts.imp id fun h =>
        ⟨hs.grows.storeTask hI hP hK hd hR hs.ages.gone hdT, h.others d hd hR hdK⟩
  · intro P c hjoin _
    have hblank : c.Blank P := by cases hjoin <;> trivial
    refine ⟨hjoin.taskOk, .inr ⟨hblank.storeTask, ?_⟩⟩
    cases hjoin <;> exact countTask_of rfl rfl
  · exact fun hjoin _ _ => (apart_of_none hjoin.free.1.holds).symm
  · intro P P' henv ⟨hI, hG, hSC⟩
    have hrestored : P'.restored = P.restored := by cases henv <;> rfl
    refine ⟨(henv.keeps hI).1, hG.mono henv.ever hrestored, ?_⟩
    by_cases hall : AllGone P
    · exact .inl (henv.allGone hall)
    · obtain ⟨hS, hC⟩ := hSC.resolve_left hall
      exact .inr ⟨henv.storeOk hS, (henv.counts hI hall hC).1⟩
  · intro P P' d henv ⟨hI, _, hSC⟩ ⟨hd, hdTK⟩
    refine ⟨(henv.keeps hI).2 d hd, ?_⟩
    by_cases hall : AllGone P
    · exact .inl (henv.allGone hall)
    · obtain ⟨hdT, hdK⟩ := hdTK.resolve_left hall
      exact .inr ⟨henv.storeTask hdT, (henv.counts hI hall (hSC.resolve_left hall).2).2 d hd hdK⟩

/-- Old values are put back. -/
def tamperingRules : Rules := { plainRules with tampering := true }

/-- A lease is released, the session evicted, and its journal restored. -/
theorem restored_genuine_released : ∃ sys,
    Reachable tamperingRules (Wire.ascii "ada") (Wire.ascii "s") sys ∧
    sys.shared.restored ≠ [] ∧ Genuine (Wire.ascii "ada") (Wire.ascii "s") sys.shared := by
  have hdumped := reaches_setsJournal [] [] (reachable_leased tamperingRules) rfl rfl rfl rfl rfl
    (by decide)
  have hset := hdumped.acts [] [] (.writes .setsJournal)
  have hlive := hset.acts [] [] (.writes (.journalSet rfl))
  have hcounter := hlive.acts [] [] (.writes .setsCounter)
  have hdone := hcounter.acts [] [] (.writes (.counterSet rfl))
  have hsaved : Reachable tamperingRules (Wire.ascii "ada") (Wire.ascii "s") ⟨_, [.ended]⟩ := hdone
  have hevicted := Interleaving.Reachable.changes hsaved (.evicts rfl rfl)
  have hloaded := reaches_restored hevicted rfl rfl rfl (by decide)
  exact ⟨_, hloaded, by decide, restored_genuine (by decide) (by decide) rfl rfl rfl rfl hloaded⟩

/-- Old values are put back, and a `_write` is cut off. -/
def rollbackRules : Rules := { plainRules with tampering := true, cutting := true }

/-- **A journal is rolled back.** The first release stores its journal and
cannot record the counter. The second stores the next one under the same
counter and succeeds. The session is evicted, the first journal is put back,
and `get` restores it. -/
theorem genuine_fails : ∃ sys, Reachable rollbackRules (Wire.ascii "ada") (Wire.ascii "s") sys ∧
    ¬Genuine (Wire.ascii "ada") (Wire.ascii "s") sys.shared := by
  -- the first release
  have hdumped := reaches_setsJournal [] [] (reachable_leased rollbackRules) rfl rfl rfl rfl rfl
    (by decide)
  have hset := hdumped.acts [] [] (.writes .setsJournal)
  have hlive := hset.acts [] [] (.writes (.journalSet rfl))
  have hfails := hlive.acts [] [] (.writes (.fails nofun))
  have hended : Reachable rollbackRules (Wire.ascii "ada") (Wire.ascii "s") ⟨_, [.ended]⟩ := hfails
  -- the second lease, and its release
  have hsecond := Interleaving.Reachable.joins hended .get
  have hacquires := hsecond.acts [Task.ended] [] (.acquires rfl rfl rfl)
  have hchecks : Reachable rollbackRules (Wire.ascii "ada") (Wire.ascii "s")
      ⟨_, [.ended, .prepares 0 1 (.checks firstSandbox)]⟩ := hacquires
  have hchecked := Interleaving.Reachable.acts [Task.ended] [] hchecks (.prepares .checks)
  have hready := hchecked.acts [Task.ended] [] (.prepares .checked)
  have hleased : Reachable rollbackRules (Wire.ascii "ada") (Wire.ascii "s")
      ⟨_, [.ended, .leased 0 1 firstSandbox]⟩ := hready
  have hdumped' := reaches_setsJournal [Task.ended] [] hleased rfl rfl rfl rfl rfl (by decide)
  have hset' := hdumped'.acts [Task.ended] [] (.writes .setsJournal)
  have hlive' := hset'.acts [Task.ended] [] (.writes (.journalSet rfl))
  have hcounter := hlive'.acts [Task.ended] [] (.writes .setsCounter)
  have hdone := hcounter.acts [Task.ended] [] (.writes (.counterSet rfl))
  have hsaved : Reachable rollbackRules (Wire.ascii "ada") (Wire.ascii "s")
      ⟨_, [.ended, .ended]⟩ := hdone
  -- the first journal is put back and restored
  have hevicted := Interleaving.Reachable.changes hsaved (.evicts rfl rfl)
  have htampered := hevicted.changes
    (.tampers (v := .journal (Wire.ascii "ada") (Wire.ascii "s") ⟨1, 0, 0⟩) rfl (by decide))
  have hloaded := reaches_restored htampered rfl rfl rfl (by decide)
  refine ⟨_, hloaded, fun hgenuine => ?_⟩
  obtain ⟨j, hj, -, hsaved⟩ := hgenuine
    ⟨.journal (Wire.ascii "ada") (Wire.ascii "s") ⟨1, 0, 0⟩, some ⟨1, 1, 1⟩⟩ (by decide)
  obtain rfl : (⟨1, 0, 0⟩ : Journal) = j := by simpa using hj
  exact absurd (hsaved ⟨1, 1, 1⟩ rfl) (by decide)

end Pydeno.Sessions
