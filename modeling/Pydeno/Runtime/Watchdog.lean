import Pydeno.Runtime.Model.Watchdog
/-!
# No deadline is missed, and none fires late

While the thread waits, every armed deadline that has not fired is either no
sooner than the instant it waits for, or has a call that is about to wake it
(`unseen_notified`, by the covering rule). A termination is issued while the
thread holds the lock under which it looked, so what it looked at is still
armed (`Sound.cause`), and an id that was disarmed does not come back.
-/

namespace Pydeno.Runtime.Watchdog

open List

open Interleaving (Sys)

/-! ## Entries -/

theorem mark_id (now : ℕ) (e : Entry) : (e.mark now).id = e.id := by
  unfold Entry.mark
  split <;> rfl

theorem mark_deadline (now : ℕ) (e : Entry) : (e.mark now).deadline = e.deadline := by
  unfold Entry.mark
  split <;> rfl

theorem map_id_mark (now : ℕ) (l : List Entry) :
    (l.map (Entry.mark now)).map Entry.id = l.map Entry.id := by
  rw [map_map]
  exact map_congr_left fun e _ => mark_id now e

/-- What is marked has fired before, or its deadline has come. -/
theorem fired_mark {now : ℕ} {e : Entry} (h : (e.mark now).fired = true) :
    e.fired = true ∨ e.deadline ≤ now := by
  unfold Entry.mark at h
  split at h
  next hdue =>
    simp only [Bool.and_eq_true, decide_eq_true_eq] at hdue
    exact .inr hdue.2
  · exact .inl h

theorem mem_firedIds {l : List Entry} {id : ℕ} :
    id ∈ firedIds l ↔ ∃ e ∈ l, e.fired = true ∧ e.id = id := by
  simp only [firedIds, mem_map, mem_filter, and_assoc]

/-- **`swap_remove` removes one element**, and changes the order of the others. -/
theorem swapRemove_perm {l : List Entry} {i : ℕ} (h : i < l.length) :
    (swapRemove l i).Perm (l.eraseIdx i) := by
  obtain ⟨init, last, rfl⟩ := eq_nil_or_concat' l |>.resolve_left fun hnil => by
    simp [hnil] at h
  unfold swapRemove
  simp only [List.getLast?_concat]
  simp only [length_append, length_singleton] at h
  by_cases hi : i < init.length
  · rw [set_append_left _ _ hi, dropLast_concat, eraseIdx_append_of_lt_length hi]
    exact (set_perm_cons_eraseIdx hi last).trans (perm_append_singleton _ _).symm
  · obtain rfl : i = init.length := by omega
    simp [set_append_right, eraseIdx_append_of_length_le]

/-- **What `disarm` leaves.** -/
theorem mem_disarm {s : Dog} (hnodup : (s.entries.map Entry.id).Nodup) (id : ℕ) :
    ((s.disarm id).1.entries.map Entry.id).Nodup ∧
      ∀ e, e ∈ (s.disarm id).1.entries ↔ e ∈ s.entries ∧ e.id ≠ id := by
  unfold Dog.disarm
  split
  next i hi =>
    obtain ⟨hlt, hid, -⟩ := List.findIdx?_eq_some_iff_getElem.1 hi
    simp only [decide_eq_true_eq] at hid
    have hperm := swapRemove_perm hlt
    have hwhole := getElem_cons_eraseIdx_perm hlt
    have hids := (hwhole.map Entry.id).nodup_iff.2 hnodup
    rw [map_cons, nodup_cons, hid] at hids
    obtain ⟨hout, hrest⟩ := hids
    refine ⟨(hperm.map Entry.id).nodup_iff.2 hrest, fun e => ?_⟩
    rw [hperm.mem_iff, ← hwhole.mem_iff, mem_cons]
    constructor
    · intro he
      refine ⟨.inr he, ?_⟩
      rintro rfl
      exact hout (mem_map_of_mem he)
    · rintro ⟨rfl | he, hne⟩
      · exact absurd hid hne
      · exact he
  next hnone =>
    refine ⟨hnodup, fun e => ⟨fun he => ⟨he, ?_⟩, And.left⟩⟩
    rw [List.findIdx?_eq_none_iff] at hnone
    simpa using hnone e he

/-! ## The invariant -/

/-- The thread holds the lock. -/
def Place.holds : Place → Bool
  | .locked | .marked .. | .issued .. => true
  | _ => false

/-- **What holds of the watchdog** between steps. -/
structure Sound (s : Dog) : Prop where
  nodup : (s.entries.map Entry.id).Nodup
  fresh : ∀ e ∈ s.entries, e.id < s.nextId
  returned : ∀ i ∈ s.returned, i < s.nextId
  disarmed : ∀ i ∈ s.disarmed, i ∈ s.returned ∧ ∀ e ∈ s.entries, e.id ≠ i
  expired : ∀ e ∈ s.entries, e.fired = true → e.deadline ≤ s.clock
  lock : s.lock = s.thread.holds
  parked : s.thread = .waiting → s.parked ≠ .busy
  cause : ∀ {now anyFired cause}, s.thread = .marked now anyFired cause →
    cause = firedIds s.entries ∧ (anyFired = true → cause ≠ [])

/-- The id that a call of `arm` has. -/
def Call.id? : Call → Option ℕ
  | .numbered id _ _ | .timed id _ _ | .notifies id => some id
  | _ => none

/-- The id of an entry that is not yet in. -/
def Call.unentered : Call → Option ℕ
  | .numbered id _ _ | .timed id _ _ => some id
  | _ => none

/-- **What holds of a call**: its id is its own. -/
structure Holds (s : Dog) (c : Call) : Prop where
  id : ∀ i, c.id? = some i → i < s.nextId ∧ i ∉ s.returned
  unentered : ∀ i, c.unentered = some i → ∀ e ∈ s.entries, e.id ≠ i

/-- Two calls have different ids. -/
def Apart (c d : Call) : Prop := ∀ i, c.id? = some i → d.id? ≠ some i

theorem Apart.symm {c d : Call} (h : Apart c d) : Apart d c := fun i hd hc => h i hc hd

theorem holds_of_none {s : Dog} {c : Call} (hid : c.id? = none) (hun : c.unentered = none) :
    Holds s c where
  id := fun i hi => by simp [hid] at hi
  unentered := fun i hi => by simp [hun] at hi

theorem sound_spawn (clock : ℕ) : Sound (.spawn clock) where
  nodup := nodup_nil
  fresh := fun _ he => (not_mem_nil he).elim
  returned := fun _ hi => (not_mem_nil hi).elim
  disarmed := fun _ hi => (not_mem_nil hi).elim
  expired := fun _ he => (not_mem_nil he).elim
  lock := rfl
  parked := nofun
  cause := nofun

section

variable {s s' : Dog} {reissueInterval : ℕ}

/-- A thread that does not hold the lock has looked at nothing. -/
theorem Sound.not_marked (h : Sound s) (hfree : s.lock = false) {now : ℕ} {anyFired : Bool}
    {cause : List ℕ} : s.thread ≠ .marked now anyFired cause := by
  intro hat
  rw [h.lock, hat] at hfree
  cases hfree

/-- **A new entry.** -/
theorem Sound.push (h : Sound s) (hfree : s.lock = false) {id deadline : ℕ} {reason : List ℕ}
    (hc : Holds s (.timed id deadline reason)) :
    Sound { s with entries := s.entries ++ [⟨id, deadline, reason, false⟩] } := by
  obtain ⟨hlt, hnew⟩ := hc.id id rfl
  have hout := hc.unentered id rfl
  have hmem : ∀ {e}, e ∈ s.entries ++ [⟨id, deadline, reason, false⟩] →
      e ∈ s.entries ∨ e = ⟨id, deadline, reason, false⟩ := by
    intro e he
    rwa [mem_append, mem_singleton] at he
  refine { h with nodup := ?_, fresh := ?_, disarmed := ?_, expired := ?_, cause := ?_ }
  · rw [map_append, nodup_append]
    refine ⟨h.nodup, nodup_singleton _, ?_⟩
    intro i hi j hj
    obtain ⟨e, he, rfl⟩ := mem_map.1 hi
    obtain rfl := mem_singleton.1 hj
    exact hout e he
  · intro e he
    rcases hmem he with he | rfl
    · exact h.fresh e he
    · exact hlt
  · intro i hi
    obtain ⟨hret, hgone⟩ := h.disarmed i hi
    refine ⟨hret, fun e he => ?_⟩
    rcases hmem he with he | rfl
    · exact hgone e he
    · rintro rfl
      exact hnew hret
  · intro e he hfired
    rcases hmem he with he | rfl
    · exact h.expired e he hfired
    · cases hfired
  · exact fun hat => absurd hat (h.not_marked hfree)

/-- **A token is given.** -/
theorem Sound.give (h : Sound s) {id : ℕ} (hlt : id < s.nextId) :
    Sound { s with returned := s.returned ++ [id] } := by
  refine { h with returned := ?_, disarmed := ?_ }
  · intro i hi
    rcases mem_append.1 hi with hi | hi
    · exact h.returned i hi
    · obtain rfl := mem_singleton.1 hi
      exact hlt
  · exact fun i hi => ⟨mem_append_left _ (h.disarmed i hi).1, (h.disarmed i hi).2⟩

theorem Sound.notifyOne (h : Sound s) : Sound s.notifyOne := by
  unfold Dog.notifyOne
  split
  next hat =>
    refine { h with lock := ?_, parked := nofun, cause := nofun }
    change s.lock = Place.woken.holds
    rw [h.lock, hat]
    rfl
  · exact h

theorem Sound.disarm (h : Sound s) (hfree : s.lock = false) {id : ℕ} (htoken : id ∈ s.returned) :
    Sound (s.disarm id).1 := by
  obtain ⟨hnodup, hmem⟩ := mem_disarm h.nodup id
  have hframe : (s.disarm id).1 =
      { s with entries := (s.disarm id).1.entries, disarmed := s.disarmed ++ [id] } := by
    unfold Dog.disarm
    split <;> rfl
  generalize (s.disarm id).1.entries = entries at hframe hnodup hmem
  rw [hframe]
  refine
    { h with
      nodup := hnodup
      fresh := fun e he => h.fresh e ((hmem e).1 he).1
      disarmed := ?_
      expired := fun e he => h.expired e ((hmem e).1 he).1
      cause := fun hat => absurd hat (h.not_marked hfree) }
  intro i hi
  rcases mem_append.1 hi with hi | hi
  · exact ⟨(h.disarmed i hi).1, fun e he => (h.disarmed i hi).2 e ((hmem e).1 he).1⟩
  · obtain rfl := mem_singleton.1 hi
    exact ⟨htoken, fun e he => ((hmem e).1 he).2⟩

/-! ## Steps -/

theorem id?_of_unentered {c : Call} {i : ℕ} (h : c.unentered = some i) : c.id? = some i := by
  cases c <;> first | exact h | cases h

/-- **What keeps a call's id its own.** -/
theorem Holds.of_le {d : Call} (h : Holds s d) (hnext : s.nextId ≤ s'.nextId)
    (hreturned : ∀ i ∈ s'.returned, d.id? = some i → i ∈ s.returned)
    (hentries : ∀ e ∈ s'.entries, d.id? = some e.id → ∃ e' ∈ s.entries, e'.id = e.id) :
    Holds s' d where
  id := fun i hi =>
    ⟨lt_of_lt_of_le (h.id i hi).1 hnext, fun hret => (h.id i hi).2 (hreturned i hret hi)⟩
  unentered := fun i hi e he heq => by
    obtain ⟨e', he', heq'⟩ := hentries e he (heq ▸ id?_of_unentered hi)
    exact h.unentered i hi e' he' (heq'.trans heq)

theorem notifyOne_entries (s : Dog) : s.notifyOne.entries = s.entries := by
  unfold Dog.notifyOne
  split <;> rfl

theorem notifyOne_nextId (s : Dog) : s.notifyOne.nextId = s.nextId := by
  unfold Dog.notifyOne
  split <;> rfl

theorem notifyOne_returned (s : Dog) : s.notifyOne.returned = s.returned := by
  unfold Dog.notifyOne
  split <;> rfl

theorem disarm_nextId (s : Dog) (id : ℕ) : (s.disarm id).1.nextId = s.nextId := by
  unfold Dog.disarm
  split <;> rfl

theorem disarm_returned (s : Dog) (id : ℕ) : (s.disarm id).1.returned = s.returned := by
  unfold Dog.disarm
  split <;> rfl

theorem Step.sound {c c' : Call} (h : Step s c s' c') (hs : Sound s) (hc : Holds s c) :
    Sound s' ∧ Holds s' c' := by
  cases h with
  | numbers =>
    refine ⟨{ hs with
      fresh := fun e he => Nat.lt_succ_of_lt (hs.fresh e he)
      returned := fun i hi => Nat.lt_succ_of_lt (hs.returned i hi) }, ?_, ?_⟩
    · rintro i ⟨⟩
      exact ⟨Nat.lt_succ_self _, fun hi => absurd (hs.returned _ hi) (lt_irrefl _)⟩
    · rintro i ⟨⟩ e he heq
      exact absurd (hs.fresh e he) (by omega)
  | times => exact ⟨hs, hc.id, hc.unentered⟩
  | pushesAndWakes hfree _ => exact ⟨hs.push hfree hc, hc.id, fun i hi => nomatch hi⟩
  | pushes hfree _ =>
    exact ⟨(hs.push hfree hc).give (hc.id _ rfl).1, holds_of_none rfl rfl⟩
  | notifies =>
    have hgive := hs.notifyOne.give (notifyOne_nextId s ▸ (hc.id _ rfl).1)
    rw [notifyOne_returned] at hgive
    exact ⟨hgive, holds_of_none rfl rfl⟩
  | disarms hfree htoken =>
    refine ⟨hs.disarm hfree htoken, ?_⟩
    split <;> exact holds_of_none rfl rfl
  | cancels | drops => exact ⟨{ hs with }, holds_of_none rfl rfl⟩
  | shuts => exact ⟨hs.notifyOne, holds_of_none rfl rfl⟩

/-- **A step of one call leaves the others their ids.** -/
theorem Step.others {c c' d : Call} (h : Step s c s' c') (hs : Sound s) (_hc : Holds s c)
    (hd : Holds s d) (hcd : Apart c d) : Holds s' d ∧ Apart c' d := by
  have hnone : ∀ {e : Call}, e.id? = none → Apart e d := fun he i hi => by simp [he] at hi
  have hpush : ∀ {id deadline : ℕ} {reason : List ℕ}, d.id? ≠ some id →
      ∀ e ∈ s.entries ++ [⟨id, deadline, reason, false⟩], d.id? = some e.id →
        ∃ e' ∈ s.entries, e'.id = e.id := by
    intro id deadline reason hne e he hid
    rcases mem_append.1 he with he | he
    · exact ⟨e, he, rfl⟩
    · obtain rfl := mem_singleton.1 he
      exact absurd hid hne
  have hgive : ∀ {id : ℕ}, d.id? ≠ some id →
      ∀ i ∈ s.returned ++ [id], d.id? = some i → i ∈ s.returned := by
    intro id hne i hi hid
    rcases mem_append.1 hi with hi | hi
    · exact hi
    · obtain rfl := mem_singleton.1 hi
      exact absurd hid hne
  cases h with
  | numbers =>
    refine ⟨hd.of_le (Nat.le_succ _) (fun _ hi _ => hi) fun e he _ => ⟨e, he, rfl⟩, ?_⟩
    rintro i ⟨⟩ hi
    exact absurd (hd.id _ hi).1 (lt_irrefl _)
  | times => exact ⟨hd, hcd⟩
  | pushesAndWakes => exact ⟨hd.of_le le_rfl (fun _ hi _ => hi) (hpush (hcd _ rfl)), hcd⟩
  | pushes => exact ⟨hd.of_le le_rfl (hgive (hcd _ rfl)) (hpush (hcd _ rfl)), hnone rfl⟩
  | notifies =>
    refine ⟨hd.of_le (by rw [notifyOne_nextId]) (hgive (hcd _ rfl)) fun e he _ => ?_, hnone rfl⟩
    exact ⟨e, by rwa [notifyOne_entries] at he, rfl⟩
  | disarms =>
    refine ⟨hd.of_le (by rw [disarm_nextId]) (fun i hi _ => by rwa [disarm_returned] at hi)
      fun e he _ => ⟨e, ((mem_disarm hs.nodup _).2 e |>.1 he).1, rfl⟩, ?_⟩
    split <;> exact hnone rfl
  | cancels | drops => exact ⟨⟨hd.id, hd.unentered⟩, hnone rfl⟩
  | shuts =>
    refine ⟨hd.of_le (by rw [notifyOne_nextId]) (fun i hi _ => by rwa [notifyOne_returned] at hi)
      fun e he _ => ⟨e, by rwa [notifyOne_entries] at he, rfl⟩, hnone rfl⟩

/-- **The next deadline is no later than any that has not fired.** -/
theorem wakes_nextDeadline {entries : List Entry} {now : ℕ} {outstanding : Bool} {e : Entry}
    (he : e ∈ entries) (hfired : e.fired = false) :
    ((nextDeadline reissueInterval entries now outstanding).elim Parked.forever .until).wakes
      e.deadline = false := by
  have hmem : e.deadline ∈ (entries.filter fun e => !e.fired).map Entry.deadline :=
    mem_map_of_mem (mem_filter.2 ⟨he, by simp [hfired]⟩)
  unfold nextDeadline
  cases hmin : ((entries.filter fun e => !e.fired).map Entry.deadline).min? with
  | none =>
    rw [List.min?_eq_none_iff.1 hmin] at hmem
    exact (not_mem_nil hmem).elim
  | some d =>
    have hle : d ≤ e.deadline := (List.min?_eq_some_iff.1 hmin).2 _ hmem
    cases outstanding with
    | true =>
      simp only [if_true, Option.elim_some, Parked.wakes, decide_eq_false_iff_not]
      omega
    | false =>
      simp only [Bool.false_eq_true, if_false, Option.elim_some, Parked.wakes,
        decide_eq_false_iff_not]
      omega

theorem Loop.sound (h : Loop reissueInterval s s') (hs : Sound s) : Sound s' := by
  cases h with
  | locks hat hfree | exits hat hshut =>
    exact { hs with lock := rfl, parked := nofun, cause := nofun }
  | marks hat hopen =>
    refine
      { hs with
        nodup := ?_, fresh := ?_, disarmed := ?_, expired := ?_, lock := ?_
        parked := nofun, cause := ?_ }
    · simp only [map_id_mark]
      exact hs.nodup
    · rintro _ he
      obtain ⟨e, hin, rfl⟩ := mem_map.1 he
      rw [mark_id]
      exact hs.fresh e hin
    · refine fun i hi => ⟨(hs.disarmed i hi).1, ?_⟩
      rintro _ he
      obtain ⟨e, hin, rfl⟩ := mem_map.1 he
      rw [mark_id]
      exact (hs.disarmed i hi).2 e hin
    · rintro _ he hfired
      obtain ⟨e, hin, rfl⟩ := mem_map.1 he
      rw [mark_deadline]
      rcases fired_mark hfired with hold | hdue
      · exact hs.expired e hin hold
      · exact hdue
    · change s.lock = true
      rw [hs.lock, hat]
      rfl
    · rintro now anyFired cause ⟨⟩
      refine ⟨rfl, fun hany => ?_⟩
      -- what expires here has fired
      obtain ⟨e, he, hdue⟩ := any_eq_true.1 hany
      refine ne_nil_of_mem (a := e.id) (mem_firedIds.2 ⟨e.mark s.clock,
        mem_map_of_mem he, ?_, mark_id _ _⟩)
      unfold Entry.mark
      rw [if_pos hdue]
  | terminates hat hdue | passes hat hdue =>
    refine { hs with lock := ?_, parked := nofun, cause := nofun }
    change s.lock = true
    rw [hs.lock, hat]
    rfl
  | parks hat =>
    refine { hs with lock := rfl, parked := fun _ => ?_, cause := nofun }
    simp only
    cases nextDeadline reissueInterval s.entries _ _ with
    | none => exact Parked.noConfusion
    | some d => exact Parked.noConfusion
  | wakes hat =>
    refine { hs with lock := ?_, parked := nofun, cause := nofun }
    change s.lock = false
    rw [hs.lock, hat]
    rfl
  | resumes hat hfree =>
    exact
      { hs with lock := hfree, parked := nofun, cause := nofun }
  | ticks elapsed =>
    exact { hs with expired := fun e he hf => Nat.le_add_right_of_le (hs.expired e he hf) }
  | requests reason => exact { hs with }

theorem Loop.holds {d : Call} (h : Loop reissueInterval s s') (hd : Holds s d) : Holds s' d := by
  cases h with
  | marks hat hopen =>
    refine hd.of_le le_rfl (fun _ hi _ => hi) ?_
    rintro _ he -
    obtain ⟨e, hin, rfl⟩ := mem_map.1 he
    exact ⟨e, hin, (mark_id _ _).symm⟩
  | _ => exact ⟨hd.id, hd.unentered⟩

/-- **The invariant holds in every state.** -/
theorem Reachable.sound {clock : ℕ} {sys : Sys Dog Call} (h : Reachable reissueInterval clock sys) :
    Sound sys.shared ∧ ∀ c ∈ sys.parts, Holds sys.shared c := by
  have hall := Interleaving.reachable_apart (I := Sound) (P := Holds) (R := Apart)
    Apart.symm (sound_spawn clock) Step.sound Step.others ?_ ?_
    (fun hl hs => hl.sound hs) (fun hl _ hd => hl.holds hd) h
  · exact ⟨hall.1, hall.2.1⟩
  · intro s c hj _
    cases hj <;> exact holds_of_none rfl rfl
  · intro s c d hj _ _ i _ hi
    cases hj <;> cases hi

/-! ## Deadlines -/

/-- A deadline that has not fired and that the waiting thread would sleep past. -/
def Unseen (s : Dog) (id : ℕ) : Prop :=
  s.thread = .waiting ∧
    ∃ e ∈ s.entries, e.id = id ∧ e.fired = false ∧ s.parked.wakes e.deadline = true

theorem not_waiting_notifyOne (s : Dog) : s.notifyOne.thread ≠ .waiting := by
  unfold Dog.notifyOne
  split
  · exact Place.noConfusion
  next hat =>
    exact hat

theorem Step.unseen {c c' : Call} (h : Step s c s' c') (hs : Sound s) (id : ℕ)
    (hun : Unseen s' id) : c' = .notifies id ∨ (Unseen s id ∧ c ≠ .notifies id) := by
  cases h with
  | numbers | times | cancels | drops => exact .inr ⟨hun, Call.noConfusion⟩
  | pushesAndWakes hfree hwake =>
    obtain ⟨hat, e, he, rfl, hrest⟩ := hun
    rcases mem_append.1 he with he | he
    · exact .inr ⟨⟨hat, e, he, rfl, hrest⟩, Call.noConfusion⟩
    · obtain rfl := mem_singleton.1 he
      exact .inl rfl
  | pushes hfree hwake =>
    obtain ⟨hat, e, he, rfl, hrest⟩ := hun
    rcases mem_append.1 he with he | he
    · exact .inr ⟨⟨hat, e, he, rfl, hrest⟩, Call.noConfusion⟩
    · obtain rfl := mem_singleton.1 he
      -- this deadline is no sooner than the instant the thread waits for
      nomatch hrest.2.symm.trans hwake
  | notifies | shuts => exact absurd hun.1 (not_waiting_notifyOne s)
  | @disarms id' hfree htoken =>
    obtain ⟨hat, e, he, hid, hrest⟩ := hun
    have hframe : (s.disarm id').1.thread = s.thread ∧ (s.disarm id').1.parked = s.parked := by
      unfold Dog.disarm
      split <;> exact ⟨rfl, rfl⟩
    rw [hframe.1] at hat
    rw [hframe.2] at hrest
    exact .inr ⟨⟨hat, e, ((mem_disarm hs.nodup id').2 e |>.1 he).1, hid, hrest⟩, Call.noConfusion⟩

theorem Loop.unseen (h : Loop reissueInterval s s') (id : ℕ) (hun : Unseen s' id) :
    Unseen s id := by
  cases h with
  | parks hat =>
    obtain ⟨-, e, he, -, hfired, hwakes⟩ := hun
    rw [wakes_nextDeadline he hfired] at hwakes
    cases hwakes
  | ticks elapsed | requests reason => exact hun
  | _ => exact nomatch hun.1

/-- **A deadline that the thread would sleep past has a call that wakes it.** -/
theorem unseen_notified {clock : ℕ} {sys : Sys Dog Call}
    (h : Reachable reissueInterval clock sys) (id : ℕ) (hun : Unseen sys.shared id) :
    .notifies id ∈ sys.parts := by
  obtain ⟨c, hc, rfl⟩ := Interleaving.reachable_covered (Q := Unseen)
    (H := fun c id => c = .notifies id) (I := Sound) (P := Holds) Reachable.sound
    (fun _ hun => nomatch hun.1) (fun hstep hs _ => hstep.unseen hs)
    (fun hl _ => hl.unseen) h id hun
  exact hc

/-- A call is about to wake the thread. -/
def Notifying (sys : Sys Dog Call) : Prop := ∃ id, .notifies id ∈ sys.parts

/-- **The thread sleeps past no deadline.** -/
def Attends (s : Dog) : Prop :=
  match s.parked with
  | .busy => False
  | .forever => ∀ e ∈ s.entries, e.fired = true
  | .until instant => ∀ e ∈ s.entries, e.fired = false → instant ≤ e.deadline

theorem attends {clock : ℕ} {sys : Sys Dog Call} (h : Reachable reissueInterval clock sys)
    (hat : sys.shared.thread = .waiting) (hquiet : ¬ Notifying sys) : Attends sys.shared := by
  have hseen : ∀ e ∈ sys.shared.entries, e.fired = false →
      sys.shared.parked.wakes e.deadline = false := by
    intro e he hfired
    by_contra hwakes
    exact hquiet ⟨e.id, unseen_notified h e.id ⟨hat, e, he, rfl, hfired, by simpa using hwakes⟩⟩
  have hparked := h.sound.1.parked hat
  unfold Attends
  split
  next hbusy =>
    exact hparked hbusy
  next hforever =>
    intro e he
    by_contra hfired
    have := hseen e he (by simpa using hfired)
    rw [hforever] at this
    cases this
  next instant huntil =>
    intro e he hfired
    have := hseen e he hfired
    rw [huntil] at this
    simpa [Parked.wakes] using this

/-! ## Terminations -/

theorem Step.terminations {c c' : Call} (h : Step s c s' c') :
    s'.terminations = s.terminations ∧ ∀ i ∈ s.disarmed, i ∈ s'.disarmed := by
  have hnotify : s.notifyOne.terminations = s.terminations ∧ s.notifyOne.disarmed = s.disarmed := by
    unfold Dog.notifyOne
    split <;> exact ⟨rfl, rfl⟩
  cases h with
  | notifies | shuts => exact ⟨hnotify.1, fun i hi => hnotify.2 ▸ hi⟩
  | disarms =>
    unfold Dog.disarm
    split <;> exact ⟨rfl, fun i hi => mem_append_left _ hi⟩
  | _ => exact ⟨rfl, fun _ hi => hi⟩

/-- **A termination is issued for entries that have expired and are armed.** -/
theorem Loop.terminations (h : Loop reissueInterval s s') (hs : Sound s) :
    s'.disarmed = s.disarmed ∧
      (s'.terminations = s.terminations ∨
        ∃ cause, s'.terminations = s.terminations ++ [cause] ∧ cause ≠ [] ∧
          ∀ i ∈ cause, ∃ e ∈ s.entries, e.id = i ∧ e.fired = true ∧ e.deadline ≤ s.clock) := by
  cases h with
  | @terminates now anyFired cause hat hdue =>
    obtain ⟨rfl, hany⟩ := hs.cause hat
    refine ⟨rfl, .inr ⟨_, rfl, ?_, fun i hi => ?_⟩⟩
    · cases anyFired with
      | true => exact hany rfl
      | false =>
        simp only [Bool.false_or, reissueDue, Bool.and_eq_true] at hdue
        simpa using hdue.1
    · obtain ⟨e, he, hfired, hid⟩ := mem_firedIds.1 hi
      exact ⟨e, he, hid, hfired, hs.expired e he hfired⟩
  | _ => exact ⟨rfl, .inl rfl⟩

end

/-- One step adds at most one termination, of armed entries. -/
theorem Move.terminations {reissueInterval clock : ℕ} {sys sys' : Sys Dog Call}
    (h : Reachable reissueInterval clock sys) (hmove : Move reissueInterval sys sys') :
    (∀ i ∈ sys.shared.disarmed, i ∈ sys'.shared.disarmed) ∧
      (sys'.shared.terminations = sys.shared.terminations ∨
        ∃ cause, sys'.shared.terminations = sys.shared.terminations ++ [cause] ∧ cause ≠ [] ∧
          ∀ i ∈ cause, ∃ e ∈ sys.shared.entries,
            e.id = i ∧ e.fired = true ∧ e.deadline ≤ sys.shared.clock) := by
  have hs := h.sound.1
  cases hmove with
  | act before after hstep => exact ⟨hstep.terminations.2, .inl hstep.terminations.1⟩
  | join parts hj => exact ⟨fun _ hi => hi, .inl rfl⟩
  | env parts hloop =>
    obtain ⟨hdis, hterm⟩ := hloop.terminations hs
    exact ⟨fun i hi => hdis.symm ▸ hi, hterm⟩

/-- **What was disarmed causes no later termination.** -/
theorem terminations_after {reissueInterval clock : ℕ} {sys sys' : Sys Dog Call}
    (h : Reachable reissueInterval clock sys)
    (hrun : Relation.ReflTransGen (Move reissueInterval) sys sys') {id : ℕ}
    (hid : id ∈ sys.shared.disarmed) : id ∈ sys'.shared.disarmed ∧
      ∃ later, sys'.shared.terminations = sys.shared.terminations ++ later ∧
        ∀ cause ∈ later, id ∉ cause := by
  induction hrun with
  | refl => exact ⟨hid, [], by simp, fun _ hc => (not_mem_nil hc).elim⟩
  | @tail mid last hrun hmove ih =>
    obtain ⟨hmid, later, hlater, hout⟩ := ih
    have hreach : Reachable reissueInterval clock mid := Relation.ReflTransGen.trans h hrun
    obtain ⟨hdis, hsame | ⟨cause, hcause, -, harmed⟩⟩ := Move.terminations hreach hmove
    · exact ⟨hdis id hmid, later, hsame.trans hlater, hout⟩
    · refine ⟨hdis id hmid, later ++ [cause], ?_, fun cause' hc => ?_⟩
      · rw [hcause, hlater, append_assoc]
      · rcases mem_append.1 hc with hc | hc
        · exact hout cause' hc
        · obtain rfl := mem_singleton.1 hc
          intro hin
          obtain ⟨e, he, heq, -⟩ := harmed id hin
          exact (hreach.sound.1.disarmed id hmid).2 e he heq

/-- **The watchdog.** Parked with nobody about to wake it, the thread sleeps
past no deadline; it terminates execution only for entries that have expired and
are armed; and what was disarmed causes no later termination. -/
theorem watchdog_deadlines (reissueInterval clock : ℕ) (sys : Sys Dog Call)
    (h : Reachable reissueInterval clock sys) :
    (sys.shared.thread = .waiting → ¬ Notifying sys → Attends sys.shared) ∧
    (∀ sys', Move reissueInterval sys sys' →
      sys'.shared.terminations = sys.shared.terminations ∨
        ∃ cause, sys'.shared.terminations = sys.shared.terminations ++ [cause] ∧ cause ≠ [] ∧
          ∀ i ∈ cause, ∃ e ∈ sys.shared.entries,
            e.id = i ∧ e.fired = true ∧ e.deadline ≤ sys.shared.clock) ∧
    (∀ sys', Relation.ReflTransGen (Move reissueInterval) sys sys' →
      ∀ id ∈ sys.shared.disarmed, ∃ later,
        sys'.shared.terminations = sys.shared.terminations ++ later ∧
          ∀ cause ∈ later, id ∉ cause) :=
  ⟨attends h, fun _ hmove => (Move.terminations h hmove).2,
    fun _ hrun _ hid => (terminations_after h hrun hid).2⟩

/-- Two deadlines are armed, and the thread waits for the first, which expires. It is
disarmed, and the termination for the second is not its doing. -/
theorem watchdog_deadlines_waiting : ∃ parked marked disarmed last : Sys Dog Call,
    (parked.shared.parked = .until 5 ∧ Attends parked.shared) ∧
    (∃ e ∈ marked.shared.entries, e.id = 0 ∧ e.fired = true ∧ e.deadline ≤ marked.shared.clock) ∧
    disarmed.shared.disarmed = [0] ∧ last.shared.terminations = [[0], [1]] ∧
    ∃ later, last.shared.terminations = disarmed.shared.terminations ++ later ∧
      ∀ cause ∈ later, 0 ∉ cause := by
  have harm : Reachable 20 0 ⟨_, [.arms 5 []]⟩ := Interleaving.reachable_nil.joins (.arm 5 [])
  have hnumbered : Reachable 20 0 ⟨_, [.numbered 0 5 []]⟩ := harm.acts [] [] .numbers
  have htimed : Reachable 20 0 ⟨_, [.timed 0 5 []]⟩ := hnumbered.acts [] [] .times
  have hpushed : Reachable 20 0 ⟨_, [.ended]⟩ := htimed.acts [] [] (.pushes rfl rfl)
  have harm' := hpushed.joins (.arm 9 [])
  have hnumbered' := harm'.acts [Call.ended] [] .numbers
  have htimed' := hnumbered'.acts [Call.ended] [] .times
  have hpushed' := htimed'.acts [Call.ended] [] (.pushes rfl rfl)
  have hlocked := hpushed'.changes (.locks rfl rfl)
  have hpassed := (hlocked.changes (.marks rfl rfl)).changes (.passes rfl rfl)
  have hparked := hpassed.changes (.parks rfl)
  -- the first expires
  have hwoken := (hparked.changes (.ticks 5)).changes (.wakes rfl)
  have hmarked := ((hwoken.changes (.resumes rfl rfl)).changes (.locks rfl rfl)).changes
    (.marks rfl rfl)
  have hmoves {sys : Sys Dog Call} {s : Dog} (_ : Reachable 20 0 sys) (h : Loop 20 sys.shared s) :
      Move 20 sys ⟨s, sys.parts⟩ := .env _ h
  have hfire := hmoves hmarked (.terminates rfl rfl)
  have hfired : Reachable 20 0 _ := hmarked.tail hfire
  -- it is disarmed, and the second expires
  have hcalls := (hfired.changes (.parks rfl)).joins (.disarm 0)
  have hdisarmed := hcalls.acts [Call.ended, .ended] [] (.disarms rfl (by decide))
  have hticks := Relation.ReflTransGen.single (hmoves hdisarmed (.ticks 4))
  have hwoken' := (hticks.tail (.env _ (.wakes rfl))).tail (.env _ (.resumes rfl rfl))
  have hmarked' := (hwoken'.tail (.env _ (.locks rfl rfl))).tail (.env _ (.marks rfl rfl))
  have hlast := hmarked'.tail (.env _ (.terminates rfl rfl))
  obtain hsame | ⟨cause, hcause, -, harmed⟩ := (watchdog_deadlines 20 0 _ hmarked).2.1 _ hfire
  · cases hsame
  · cases hcause
    refine ⟨_, _, _, _, ⟨rfl, (watchdog_deadlines 20 0 _ hparked).1 rfl ?_⟩, harmed 0 (by decide),
      rfl, rfl, (watchdog_deadlines 20 0 _ hdisarmed).2.2 _ hlast 0 (by decide)⟩
    rintro ⟨id, hid⟩
    simp at hid

end Pydeno.Runtime.Watchdog
