import Pydeno.Runtime.Model.Convert
/-!
# What a conversion registers

A conversion only ever adds to the registries, and notes what it adds (`Grows`);
so one that fails can take it all back. What it has registered, less what
insertions have replaced, is what is in the value it is building (`Yields`): the
equation goes through every branch of the converter by the rules of programs.
-/

namespace Pydeno.Runtime.Convert

open List JSValue Conv Prog

/-! ## Accounts -/

/-- What was registered. -/
def Conv.made (s : Conv) : List Handle :=
  s.registeredFunctions.map .function ++ s.registeredStreams.map .stream

/-- What was registered, less what was replaced. -/
def Conv.net (s : Conv) (h : Handle) : ℤ := s.made.count h - s.dropped.count h

/-- **The registries grow by what is noted.** -/
def Grows (s s' : Conv) : Prop :=
  ∃ fs ss, s'.functions.entries = s.functions.entries ++ fs ∧
    s'.registeredFunctions = s.registeredFunctions ++ fs.map Prod.fst ∧
    s'.streams.entries = s.streams.entries ++ ss ∧
    s'.registeredStreams = s.registeredStreams ++ ss.map Prod.fst

theorem Grows.refl (s : Conv) : Grows s s := ⟨[], [], by simp, by simp, by simp, by simp⟩

theorem Grows.trans {s s' s'' : Conv} (h : Grows s s') (h' : Grows s' s'') : Grows s s'' := by
  obtain ⟨fs, ss, hf, hrf, hs, hrs⟩ := h
  obtain ⟨fs', ss', hf', hrf', hs', hrs'⟩ := h'
  refine ⟨fs ++ fs', ss ++ ss', ?_, ?_, ?_, ?_⟩
  · rw [hf', hf, append_assoc]
  · rw [hrf', hrf, append_assoc, map_append]
  · rw [hs', hs, append_assoc]
  · rw [hrs', hrs, append_assoc, map_append]

/-- **A program whose net registrations are the weight of its value.** -/
def Yields {α : Type} (weight : α → Handle → ℤ) (m : Prog Conv String α) : Prop :=
  m.Meets Grows fun s v s' => ∀ h, s'.net h = s.net h + weight v h

section

variable {α β : Type} {weight : α → Handle → ℤ} {m : Prog Conv String α}

/-- What follows has the rest of the weight. -/
theorem Yields.bind {f : α → Prog Conv String β} {weight' : β → Handle → ℤ} (hm : Yields weight m)
    (hf : ∀ v, Yields (fun w h => weight' w h - weight v h) (f v)) : Yields weight' (m >>= f) := by
  refine Prog.Meets.bind Grows.trans hm fun v _ => (hf v).mono ?_
  intro s' w s'' _ hsecond s hfirst h
  rw [hsecond h, hfirst h]
  ring

theorem Yields.congr {weight' : α → Handle → ℤ} (hm : Yields weight m)
    (hw : ∀ v h, weight v h = weight' v h) : Yields weight' m := by
  obtain rfl : weight = weight' := funext fun v => funext (hw v)
  exact hm

/-- **A program that leaves the accounts alone.** -/
def Quiet (m : Prog Conv String α) : Prop :=
  ∀ s, ((m s).2.functions = s.functions ∧ (m s).2.registeredFunctions = s.registeredFunctions) ∧
    ((m s).2.streams = s.streams ∧ (m s).2.registeredStreams = s.registeredStreams) ∧
    (m s).2.dropped = s.dropped

theorem Quiet.yields (hm : Quiet m) : Yields (fun _ _ => 0) m := by
  refine ⟨fun s => ?_, fun s v _ h => ?_⟩
  · obtain ⟨⟨hf, hrf⟩, ⟨hs, hrs⟩, -⟩ := hm s
    exact ⟨[], [], by simp [hf], by simp [hrf], by simp [hs], by simp [hrs]⟩
  · obtain ⟨⟨-, hrf⟩, ⟨-, hrs⟩, hd⟩ := hm s
    simp only [net, made, hrf, hrs, hd, add_zero]

/-- What follows a quiet program. -/
theorem Quiet.then {f : α → Prog Conv String β} {weight' : β → Handle → ℤ} (hm : Quiet m)
    (hf : ∀ v, Yields weight' (f v)) : Yields weight' (m >>= f) := by
  refine hm.yields.bind fun v => ?_
  simpa only [sub_zero] using hf v

end

/-! ## Steps -/

/-- The weight of a value: its handles. -/
def JSValue.weight (v : JSValue) (h : Handle) : ℤ := v.handles.count h

section

variable (limits : Limits) (world : ℕ → Heap)

section

variable {α : Type*} {entries : Dict ℕ α} {n next id next' : ℕ}

/-- **A search ends** at a free id, or every id it has looked at is live. -/
theorem allocateId_cases (entries : Dict ℕ α) (n next : ℕ) :
    (∃ id, allocateId entries n next = (some id, (id + 1) % 2 ^ 32) ∧ entries.get? id = none ∧
      (id = next ∨ id < 2 ^ 32)) ∨
    ((allocateId entries n next).1 = none ∧
      ∀ k < n, next < 2 ^ 32 → entries.get? ((next + k) % 2 ^ 32) ≠ none) := by
  induction n generalizing next with
  | zero => exact .inr ⟨rfl, by simp⟩
  | succ n ih =>
    unfold allocateId
    split
    next hfree => exact .inl ⟨next, rfl, Option.isNone_iff_eq_none.1 hfree, .inl rfl⟩
    next hlive =>
      have hlt : (next + 1) % 2 ^ 32 < 2 ^ 32 := Nat.mod_lt _ (by decide)
      rcases ih ((next + 1) % 2 ^ 32) with ⟨id, hid, hfree, hin⟩ | ⟨hnone, hall⟩
      · exact .inl ⟨id, hid, hfree, .inr (by omega)⟩
      · refine .inr ⟨hnone, fun k hk hnext => ?_⟩
        cases k with
        | zero =>
          rw [Nat.add_zero, Nat.mod_eq_of_lt hnext]
          simpa using hlive
        | succ k =>
          have hk' := hall k (by omega) hlt
          rwa [Nat.mod_add_mod, Nat.add_assoc, Nat.add_comm 1 k] at hk'

/-- **Allocation with wrap-around.** From every counter and for every set of live ids, a
free id is found while there is one, and the counter is left behind it; with all ids live
none is. -/
theorem allocateId_exact (entries : Dict ℕ α) (next : ℕ) (hnext : next < 2 ^ 32)
    (hlive : ∀ id, entries.get? id ≠ none → id < 2 ^ 32) :
    (entries.entries.length < 2 ^ 32 →
      ∃ id < 2 ^ 32, entries.get? id = none ∧
        allocateId entries (entries.entries.length + 1) next = (some id, (id + 1) % 2 ^ 32)) ∧
    (2 ^ 32 ≤ entries.entries.length →
      (allocateId entries (entries.entries.length + 1) next).1 = none) := by
  have hmem : ∀ id, id ∈ entries.entries.map Prod.fst ↔ entries.get? id ≠ none := by
    intro id
    rw [Ne, Dict.get?_eq_none_iff]
    simp
  rcases allocateId_cases entries (entries.entries.length + 1) next with
    ⟨id, hid, hfree, hin⟩ | ⟨hnone, hall⟩
  · refine ⟨fun _ => ⟨id, by omega, hfree, hid⟩, fun hfull => ?_⟩
    -- the free id and the live ones are too many
    have hnodup : (id :: entries.entries.map Prod.fst).Nodup :=
      nodup_cons.mpr ⟨fun h => (hmem id).mp h hfree, entries.nodup⟩
    have hsub : id :: entries.entries.map Prod.fst ⊆ range (2 ^ 32) := by
      intro x hx
      rw [mem_range]
      rcases mem_cons.mp hx with rfl | hx
      · omega
      · exact hlive x ((hmem x).mp hx)
    have hle := (hnodup.subperm hsub).length_le
    rw [length_cons, length_map, length_range] at hle
    omega
  · refine ⟨fun hroom => ?_, fun _ => hnone⟩
    -- the ids that were looked at are one more than are live
    have hnodup : ((range (entries.entries.length + 1)).map fun k => (next + k) % 2 ^ 32).Nodup := by
      refine nodup_range.map_on fun i hi j hj h => ?_
      rw [mem_range] at hi hj
      omega
    have hsub : ((range (entries.entries.length + 1)).map fun k => (next + k) % 2 ^ 32) ⊆
        entries.entries.map Prod.fst := by
      intro x hx
      obtain ⟨k, hk, rfl⟩ := mem_map.mp hx
      exact (hmem _).mpr (hall k (mem_range.mp hk) hnext)
    have hle := (hnodup.subperm hsub).length_le
    rw [length_map, length_range, length_map] at hle
    omega

theorem allocateId_exact_wraps :
    ∃ id < 2 ^ 32, (⟨[(2 ^ 32 - 1, ())], by simp⟩ : Dict ℕ Unit).get? id = none ∧
      allocateId ⟨[(2 ^ 32 - 1, ())], by simp⟩ 2 (2 ^ 32 - 1) = (some id, (id + 1) % 2 ^ 32) :=
  (allocateId_exact ⟨[(2 ^ 32 - 1, ())], by simp⟩ (2 ^ 32 - 1) (by decide) fun id h => by
    by_contra hid
    exact h (Dict.get?_eq_none_iff.mpr fun v hv => hid (by simp at hv; omega))).1 (by decide)

end

end

end Pydeno.Runtime.Convert
