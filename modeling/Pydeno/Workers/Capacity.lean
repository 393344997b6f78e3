import Pydeno.Workers.Model.Capacity
/-!
# A pool keeps to its worker cap

Every process the pool started and that lives is accounted for by one slot: the
one its start is running in, the one that holds its handle, or the one that is
handed over from it. There are at most `max_workers` slots, so there are at
most that many workers. A replacement starts only once the worker it replaces
has exited.

The invariant of the pool (`PoolInv`) is about the slots alone; that of a
caller (`PartInv`) says what its own slot holds. No two callers have one slot.
-/

namespace Pydeno.Workers

open List Dict

open Interleaving (Sys)

/-! ## Processes in slots -/

def Held.procs : Held → List ℕ
  | .reserved => []
  | .proc p => [p]
  | .handover p => [p]

/-- The processes a slot accounts for. -/
def Slot.procs (slot : Slot) : List ℕ := slot.held.procs ++ slot.spawned.toList

attribute [simp] Held.procs Slot.procs

def Pool.procs (P : Pool) : List ℕ := P.workers.entries.flatMap fun e => e.2.procs

/-- A slot whose value is no process of its own: reserved, or handed over from a
process that has exited. -/
def Slot.Open (exited : List ℕ) (slot : Slot) : Prop :=
  slot.held = .reserved ∨ ∃ p, slot.held = .handover p ∧ p ∈ exited

/-- **What holds of the slots of a pool.** -/
structure PoolInv (m : ℕ) (P : Pool) : Prop where
  maximum : P.maximum = some m
  length : P.workers.entries.length ≤ m
  tokens : ∀ e ∈ P.workers.entries, e.1 < P.nextToken
  below : ∀ p ∈ P.procs, p < P.nextProc
  nodup : P.procs.Nodup
  accounted : ∀ p < P.nextProc, p ∉ P.exited → p ∈ P.procs
  settled : ∀ e ∈ P.workers.entries, e.2.spawned = none ∨ e.2.Open P.exited

/-- **What a caller knows of its slot.** -/
def PartInv (P : Pool) : Part → Prop
  | .handed token p => P.workers.get? token = some ⟨.handover p, none⟩
  | .waits token p => P.workers.get? token = some ⟨.handover p, none⟩
  | .starts token old _ => (∃ slot, P.workers.get? token = some slot ∧ slot.Open P.exited) ∧
      ∀ p ∈ old, p ∈ P.exited
  | _ => True

/-- The slot a caller has. -/
def Part.token? : Part → Option ℕ
  | .handed token _ => some token
  | .waits token _ => some token
  | .starts token _ _ => some token
  | _ => none

/-- Two callers have no slot in common. -/
def Apart (c d : Part) : Prop := ∀ token, c.token? = some token → d.token? ≠ some token

variable {c c' : Part} {m token : ℕ} {P P' : Pool}

theorem Apart.symm {d : Part} (h : Apart c d) : Apart d c :=
  fun token hd hc => h token hc hd

theorem Slot.Open.held_ne {exited : List ℕ} {slot : Slot} (h : slot.Open exited) (p : ℕ) :
    slot.held ≠ .proc p := by
  rcases h with hr | ⟨q, hq, -⟩
  · simp [hr]
  · simp [hq]

/-- A slot that holds a process has no start running in it. -/
theorem PoolInv.spawned_of_proc {p : ℕ} (h : PoolInv m P) {e : ℕ × Slot}
    (he : e ∈ P.workers.entries) (hheld : e.2.held = .proc p) : e.2.spawned = none := by
  rcases h.settled e he with hnone | hopen
  · exact hnone
  · exact absurd hheld (hopen.held_ne p)

/-! ## Changes to one slot -/

section

variable {m : ℕ} {P : Pool} {token : ℕ} {slot new : Slot}

/-- The processes before and after a change to one slot. -/
theorem procs_split (h : P.workers.get? token = some slot) :
    ∃ before after, P.procs = before ++ slot.procs ++ after ∧
      (∀ new, ((P.workers.set token new).entries.flatMap fun e => e.2.procs) =
        before ++ new.procs ++ after) ∧
      ((P.workers.erase token).entries.flatMap fun e => e.2.procs) = before ++ after := by
  obtain ⟨before, after, hsplit, hset, herase⟩ := split_of_get? h
  refine ⟨before.flatMap fun e => e.2.procs, after.flatMap fun e => e.2.procs, ?_, fun new => ?_, ?_⟩
  · simp [Pool.procs, hsplit]
  · simp [hset]
  · simp [herase]

theorem length_set (h : P.workers.get? token = some slot) (new : Slot) :
    (P.workers.set token new).entries.length = P.workers.entries.length := by
  obtain ⟨before, after, hsplit, hset, -⟩ := split_of_get? h
  simp [hsplit, hset]

/-- **A slot gives up processes that have exited.** -/
theorem PoolInv.set (h : PoolInv m P) (hget : P.workers.get? token = some slot)
    (hsub : new.procs.Sublist slot.procs) (hlost : ∀ p ∈ slot.procs, p ∉ new.procs → p ∈ P.exited)
    (hsettled : new.spawned = none ∨ new.Open P.exited) :
    PoolInv m { P with workers := P.workers.set token new } := by
  obtain ⟨before, after, hold, hset, -⟩ := procs_split hget
  have hprocs : ({ P with workers := P.workers.set token new } : Pool).procs =
      before ++ new.procs ++ after := hset new
  have hsublist : (before ++ new.procs ++ after).Sublist P.procs := by
    rw [hold]
    exact (hsub.append_left before).append_right after
  refine ⟨h.maximum, ?_, ?_, ?_, ?_, ?_, ?_⟩
  · rw [length_set hget]
    exact h.length
  · rintro ⟨t, s⟩ he
    rcases mem_set.1 he with ⟨rfl, -⟩ | ⟨-, he⟩
    · exact h.tokens (t, slot) (mem_of_get? hget)
    · exact h.tokens _ he
  · rw [hprocs]
    exact fun p hp => h.below p (hsublist.subset hp)
  · rw [hprocs]
    exact h.nodup.sublist hsublist
  · intro p hp halive
    have hmem := h.accounted p hp halive
    rw [hold] at hmem
    rw [hprocs]
    simp only [mem_append] at hmem ⊢
    rcases hmem with (hmem | hmem) | hmem
    · exact .inl (.inl hmem)
    · by_cases hnew : p ∈ new.procs
      · exact .inl (.inr hnew)
      · exact absurd (hlost p hmem hnew) halive
    · exact .inr hmem
  · rintro ⟨t, s⟩ he
    rcases mem_set.1 he with ⟨-, rfl⟩ | ⟨-, he⟩
    · exact hsettled
    · exact h.settled _ he

/-- **A slot is given back** when all its processes have exited. -/
theorem PoolInv.erase (h : PoolInv m P) (hget : P.workers.get? token = some slot)
    (hlost : ∀ p ∈ slot.procs, p ∈ P.exited) :
    PoolInv m { P with workers := P.workers.erase token } := by
  obtain ⟨before, after, hold, -, herase⟩ := procs_split hget
  have hprocs : ({ P with workers := P.workers.erase token } : Pool).procs = before ++ after :=
    herase
  have hsublist : (before ++ after).Sublist P.procs := by
    rw [hold]
    exact (sublist_append_left before slot.procs).append_right after
  refine ⟨h.maximum, ?_, ?_, ?_, ?_, ?_, ?_⟩
  · exact le_trans (length_filter_le _ _) h.length
  · exact fun e he => h.tokens e (mem_filter.1 he).1
  · rw [hprocs]
    exact fun p hp => h.below p (hsublist.subset hp)
  · rw [hprocs]
    exact h.nodup.sublist hsublist
  · intro p hp halive
    have hmem := h.accounted p hp halive
    rw [hold] at hmem
    rw [hprocs]
    simp only [mem_append] at hmem ⊢
    rcases hmem with (hmem | hmem) | hmem
    · exact .inl hmem
    · exact absurd (hlost p hmem) halive
    · exact .inr hmem
  · exact fun e he => h.settled e (mem_filter.1 he).1

/-- A start brings up a process in its slot. -/
theorem PoolInv.spawn {held : Held} (h : PoolInv m P)
    (hget : P.workers.get? token = some ⟨held, none⟩) (hopen : (⟨held, none⟩ : Slot).Open P.exited) :
    PoolInv m (P.spawn token held) := by
  obtain ⟨before, after, hold, hset, -⟩ := procs_split hget
  have hprocs : (P.spawn token held).procs = before ++ (held.procs ++ [P.nextProc]) ++ after :=
    hset ⟨held, some P.nextProc⟩
  have hold' : P.procs = before ++ held.procs ++ after := by
    simpa using hold
  have hperm : (P.spawn token held).procs.Perm (P.nextProc :: P.procs) := by
    rw [hprocs, hold', ← append_assoc, append_assoc _ [P.nextProc]]
    exact perm_middle
  refine ⟨h.maximum, ?_, ?_, ?_, ?_, ?_, ?_⟩
  · have := length_set hget ⟨held, some P.nextProc⟩
    exact this ▸ h.length
  · rintro ⟨t, s⟩ he
    rcases mem_set.1 he with ⟨rfl, -⟩ | ⟨-, he⟩
    · exact h.tokens (t, ⟨held, none⟩) (mem_of_get? hget)
    · exact h.tokens _ he
  · intro p hp
    rcases mem_cons.1 (hperm.subset hp) with rfl | hp
    · exact Nat.lt_succ_self _
    · exact Nat.lt_succ_of_lt (h.below p hp)
  · rw [hperm.nodup_iff, nodup_cons]
    exact ⟨fun hmem => absurd (h.below _ hmem) (lt_irrefl _), h.nodup⟩
  · intro p hp halive
    refine hperm.symm.subset ?_
    rcases Nat.lt_succ_iff_lt_or_eq.1 hp with hlt | rfl
    · exact mem_cons_of_mem _ (h.accounted p hlt halive)
    · exact mem_cons_self
  · rintro ⟨t, s⟩ he
    rcases mem_set.1 he with ⟨-, rfl⟩ | ⟨-, he⟩
    · exact .inr hopen
    · exact h.settled _ he

/-! ## The operations -/

theorem PoolInv.live (h : PoolInv m P) : PoolInv m P.live := by
  have hsub : P.live.workers.entries.Sublist P.workers.entries := filter_sublist
  have hprocs : P.live.procs.Sublist P.procs := hsub.flatMap _
  refine ⟨h.maximum, le_trans hsub.length_le h.length, fun e he => h.tokens e (hsub.subset he),
    fun p hp => h.below p (hprocs.subset hp), h.nodup.sublist hprocs, fun p hp halive => ?_,
    fun e he => h.settled e (hsub.subset he)⟩
  obtain ⟨e, he, hmem⟩ := mem_flatMap.1 (h.accounted p hp halive)
  refine mem_flatMap.2 ⟨e, mem_filter.2 ⟨he, ?_⟩, hmem⟩
  -- a slot is dropped only with the one process it accounts for
  cases hheld : e.2.held with
  | reserved | handover q => rfl
  | proc q =>
    have hspawned := h.spawned_of_proc he hheld
    obtain rfl : p = q := by simpa [hheld, hspawned] using hmem
    exact decide_eq_true halive

theorem PoolInv.available (h : PoolInv m P) : P.available.2 = P.live := by
  simp [Pool.available, h.maximum]

/-- A slot is reserved only where there is room. -/
theorem PoolInv.reserve (h : PoolInv m P) (hroom : P.available.1 = true) :
    PoolInv m P.available.2.reserve := by
  have hl := h.live
  have hlt : P.live.workers.entries.length < m := by
    simpa [Pool.available, h.maximum] using hroom
  rw [h.available]
  have hfree : P.live.workers.get? P.live.nextToken = none := by
    rw [get?_eq_none_iff]
    exact fun slot hmem => absurd (hl.tokens _ hmem) (lt_irrefl _)
  have hentries : P.live.reserve.workers.entries =
      P.live.workers.entries ++ [(P.live.nextToken, ⟨.reserved, none⟩)] := by
    simp only [Pool.reserve, hl.maximum, Option.isSome_some, if_true]
    exact entries_set_of_get?_none hfree _
  have hprocs : P.live.reserve.procs = P.live.procs := by
    simp [Pool.procs, hentries]
  refine ⟨hl.maximum, ?_, ?_, ?_, ?_, ?_, ?_⟩
  · rw [hentries, length_append, length_singleton]
    exact hlt
  · intro e he
    rw [hentries] at he
    rcases mem_append.1 he with he | he
    · exact Nat.lt_succ_of_lt (hl.tokens e he)
    · obtain rfl := mem_singleton.1 he
      exact Nat.lt_succ_self _
  · rw [hprocs]; exact hl.below
  · rw [hprocs]; exact hl.nodup
  · rw [hprocs]; exact hl.accounted
  · intro e he
    rw [hentries] at he
    rcases mem_append.1 he with he | he
    · exact hl.settled e he
    · obtain rfl := mem_singleton.1 he
      exact .inl rfl

/-- A slot handed over accounts for its process as before. -/
theorem PoolInv.handOver {P' : Pool} {p : ℕ} (h : PoolInv m P)
    (hh : P.handOver p = (some token, P')) :
    PoolInv m P' ∧ P.workers.get? token = some ⟨.proc p, none⟩ ∧
      P' = { P with workers := P.workers.set token ⟨.handover p, none⟩ } := by
  unfold Pool.handOver at hh
  split at hh
  next t slot hfind =>
    obtain ⟨ht, rfl⟩ := Prod.mk.inj hh
    cases ht
    have hmem := mem_of_find?_eq_some hfind
    have hheld : slot.held = .proc p := by simpa using List.find?_some hfind
    have hspawned := h.spawned_of_proc hmem hheld
    have hslot : slot = ⟨.proc p, none⟩ := by
      cases slot
      simp_all
    subst hslot
    have hget := get?_of_mem hmem
    exact ⟨h.set hget (List.Sublist.refl _) (fun q hq hn => absurd hq hn) (.inl rfl), hget, rfl⟩
  · cases hh

theorem handOver_none {P' : Pool} {p : ℕ} (hh : P.handOver p = (none, P')) : P' = P := by
  unfold Pool.handOver at hh
  split at hh
  · cases hh
  · exact (Prod.mk.inj hh).2.symm

/-- Abandoning a hand-over gives the slot back to the old process, or frees
it. -/
theorem PoolInv.release (h : PoolInv m P) (hget : P.workers.get? token = some slot)
    (hspawned : ∀ p ∈ slot.spawned, p ∈ P.exited)
    (hheld : slot.held = .reserved ∨ ∃ p, slot.held = .handover p ∧
      (p ∉ P.exited → slot.spawned = none)) :
    PoolInv m (P.release token) := by
  unfold Pool.release
  obtain ⟨held, spawned⟩ := slot
  rw [hget]
  rcases hheld with rfl | ⟨p, rfl, hnone⟩
  · refine h.erase hget fun q hq => hspawned q ?_
    simpa using hq
  · simp only
    split
    next halive =>
      have hsp : spawned = none := hnone halive
      subst hsp
      exact h.set hget (List.Sublist.refl _) (fun q hq hn => absurd hq hn) (.inl rfl)
    next hexited =>
      refine h.erase hget fun q hq => ?_
      simp only [Slot.procs, Held.procs, singleton_append, mem_cons, Option.mem_toList] at hq
      rcases hq with rfl | hq
      · simpa using hexited
      · exact hspawned q hq

/-- The start reports its process. -/
theorem PoolInv.keep {held : Held} {p : ℕ} (h : PoolInv m P)
    (hget : P.workers.get? token = some ⟨held, some p⟩)
    (hopen : (⟨held, some p⟩ : Slot).Open P.exited) : PoolInv m (P.keep token p) := by
  refine h.set hget ?_ (fun q hq hn => ?_) (.inl rfl)
  · exact sublist_append_right held.procs [p]
  · simp only [Slot.procs, mem_append] at hq hn
    rcases hq with hq | hq
    · rcases hopen with hr | ⟨r, hr, hexited⟩
      · simp only at hr
        subst hr
        cases hq
      · simp only at hr
        subst hr
        obtain rfl : q = r := by simpa using hq
        exact hexited
    · exact absurd (.inl (by simpa using hq)) hn

end

/-! ## One step -/

/-- What a step leaves of other callers' slots: all of those that hold no
process. -/
structure Keeps (P P' : Pool) (c : Part) : Prop where
  slots : ∀ token slot, c.token? ≠ some token → P.workers.get? token = some slot →
    (∀ p, slot.held ≠ .proc p) → P'.workers.get? token = some slot
  exited : P.exited ⊆ P'.exited

theorem keeps_live (P : Pool) (c : Part) : Keeps P P.live c := by
  refine ⟨fun token slot _ hget hheld => get?_filter hget ?_, List.Subset.refl _⟩
  cases hh : slot.held with
  | reserved | handover p => rfl
  | proc p => exact absurd hh (hheld p)

/-- A step that changes the caller's own slot. -/
theorem keeps_set (hown : c.token? = some token) (slot : Slot) :
    Keeps P { P with workers := P.workers.set token slot } c := by
  refine ⟨fun t s hne hget _ => ?_, List.Subset.refl _⟩
  have hother : t ≠ token := by
    rintro rfl
    exact hne hown
  exact (get?_set_ne hother).trans hget

theorem keeps_erase (hown : c.token? = some token) :
    Keeps P { P with workers := P.workers.erase token } c := by
  refine ⟨fun t s hne hget _ => ?_, List.Subset.refl _⟩
  have hother : t ≠ token := by
    rintro rfl
    exact hne hown
  exact (get?_erase_ne hother).trans hget

theorem keeps_release (hown : c.token? = some token) : Keeps P (P.release token) c := by
  unfold Pool.release
  split
  · split
    · exact keeps_set hown _
    · exact keeps_erase hown
  · exact keeps_erase hown

theorem Keeps.trans {a b c : Pool} {part : Part} (h : Keeps a b part) (h' : Keeps b c part) :
    Keeps a c part :=
  ⟨fun token slot hne hget hheld => h'.slots token slot hne (h.slots token slot hne hget hheld) hheld,
    List.Subset.trans h.exited h'.exited⟩

theorem keeps_reserve (h : PoolInv m P) (c : Part) : Keeps P P.available.2.reserve c := by
  rw [h.available]
  refine (keeps_live P c).trans ⟨fun t s _ hget _ => ?_, List.Subset.refl _⟩
  have hlt : t < P.live.nextToken := h.live.tokens _ (mem_of_get? hget)
  simp only [Pool.reserve, h.live.maximum, Option.isSome_some, if_true]
  exact (get?_set_ne (by omega)).trans hget

/-- A caller's slot holds no process. -/
theorem PartInv.slot {d : Part} (h : PartInv P d) (hd : d.token? = some token) :
    ∃ slot, P.workers.get? token = some slot ∧ ∀ p, slot.held ≠ .proc p := by
  cases d with
  | handed t p | waits t p =>
    cases hd
    exact ⟨_, h, by simp⟩
  | starts t old filler =>
    cases hd
    obtain ⟨⟨slot, hget, hopen⟩, -⟩ := h
    exact ⟨slot, hget, hopen.held_ne⟩
  | _ => cases hd

/-- **What another caller knows stays.** -/
theorem PartInv.keeps {d : Part} (h : PartInv P d) (hk : Keeps P P' c) (hapart : Apart c d) :
    PartInv P' d := by
  cases d with
  | handed t p | waits t p => exact hk.slots t _ (fun hc => hapart t hc rfl) h (by simp)
  | starts t old filler =>
    obtain ⟨⟨slot, hget, hopen⟩, hold⟩ := h
    refine ⟨⟨slot, hk.slots t _ (fun hc => hapart t hc rfl) hget hopen.held_ne, ?_⟩,
      fun p hp => hk.exited (hold p hp)⟩
    rcases hopen with hr | ⟨p, hp, hexited⟩
    · exact .inl hr
    · exact .inr ⟨p, hp, hk.exited hexited⟩
  | _ => trivial

/-- The slot a step gives its caller is new, or held a process. -/
def Gains (P : Pool) (c c' : Part) : Prop :=
  ∀ token, c'.token? = some token → c.token? = some token ∨ P.workers.get? token = none ∨
    ∃ slot p, P.workers.get? token = some slot ∧ slot.held = .proc p

theorem Gains.apart {d : Part} (h : Gains P c c') (hd : PartInv P d) (hapart : Apart c d) :
    Apart c' d := by
  intro token hc' htoken
  obtain ⟨slot, hget, hheld⟩ := hd.slot htoken
  rcases h token hc' with hc | hnone | ⟨slot', p, hget', hp⟩
  · exact hapart token hc htoken
  · rw [hnone] at hget
    cases hget
  · rw [hget'] at hget
    cases hget
    exact hheld p hp

theorem gains_none (h : c'.token? = none) : Gains P c c' := by
  intro token hc'
  rw [h] at hc'
  cases hc'

theorem gains_same (h : c'.token? = c.token?) : Gains P c c' :=
  fun _ hc' => .inl (h ▸ hc')

/-- The next token is not in use. -/
theorem PoolInv.gains_next (h : PoolInv m P) (c : Part) (old : Option ℕ) (filler : Bool) :
    Gains P c (.starts P.nextToken old filler) := by
  intro token htoken
  cases htoken
  refine .inr (.inl ?_)
  rw [get?_eq_none_iff]
  exact fun slot hmem => absurd (h.tokens _ hmem) (lt_irrefl _)

/-- The pools differ in nothing that concerns the slots. -/
structure SameSlots (P P' : Pool) : Prop where
  maximum : P'.maximum = P.maximum
  workers : P'.workers = P.workers
  nextToken : P'.nextToken = P.nextToken
  nextProc : P'.nextProc = P.nextProc
  exited : P'.exited = P.exited

theorem PoolInv.same (h : PoolInv m P) (hs : SameSlots P P') : PoolInv m P' := by
  have hprocs : P'.procs = P.procs := by simp [Pool.procs, hs.workers]
  refine ⟨hs.maximum ▸ h.maximum, hs.workers ▸ h.length, ?_, ?_, hprocs ▸ h.nodup, ?_, ?_⟩
  · rw [hs.workers, hs.nextToken]
    exact h.tokens
  · rw [hprocs, hs.nextProc]
    exact h.below
  · rw [hprocs, hs.nextProc, hs.exited]
    exact h.accounted
  · rw [hs.workers, hs.exited]
    exact h.settled

theorem Keeps.same {pool'' : Pool} (h : Keeps P P' c) (hs : SameSlots P' pool'') :
    Keeps P pool'' c :=
  ⟨fun token slot hne hget hheld => hs.workers ▸ h.slots token slot hne hget hheld,
    hs.exited ▸ h.exited⟩

theorem keeps_refl (P : Pool) (c : Part) : Keeps P P c :=
  ⟨fun _ _ _ hget _ => hget, List.Subset.refl _⟩

/-- **What a step does**, to the pool, to its caller and to the others. -/
structure Effect (m : ℕ) (P : Pool) (c : Part) (P' : Pool) (c' : Part) : Prop where
  inv : PoolInv m P'
  part : PartInv P' c'
  keeps : Keeps P P' c
  gains : Gains P c c'

/-- A step that changes no slot. -/
theorem effect_same (h : PoolInv m P)
    (hs : SameSlots P P') (hpart : PartInv P' c') (hgains : Gains P c c') : Effect m P c P' c' :=
  ⟨h.same hs, hpart, (keeps_refl P c).same hs, hgains⟩

/-- A step that only looks for room. -/
theorem effect_live (h : PoolInv m P)
    (hs : SameSlots P.live P') (hpart : PartInv P' c') (hgains : Gains P c c') :
    Effect m P c P' c' :=
  ⟨h.live.same hs, hpart, (keeps_live P c).same hs, hgains⟩

/-- A slot is reserved for a start. -/
theorem effect_reserve {filler : Bool} (h : PoolInv m P)
    (hroom : P.available.1 = true) (hs : SameSlots P.available.2.reserve P') :
    Effect m P c P' (.starts P.nextToken none filler) := by
  have hnext : P.available.2.nextToken = P.nextToken := by rw [h.available]; rfl
  have hmax : P.available.2.maximum = some m := by rw [h.available]; exact h.maximum
  refine ⟨(h.reserve hroom).same hs, ⟨⟨⟨.reserved, none⟩, ?_, .inl rfl⟩, by simp⟩,
    (keeps_reserve h c).same hs, h.gains_next c none filler⟩
  rw [hs.workers]
  simp only [Pool.reserve, hmax, hnext, Option.isSome_some, if_true]
  exact get?_set_self

/-- The slot of an abandoned hand-over is released. -/
theorem effect_release {p : ℕ} (h : PoolInv m P)
    (hown : c.token? = some token) (hget : P.workers.get? token = some ⟨.handover p, none⟩)
    (hs : SameSlots (P.release token) P') : Effect m P c P' .done :=
  have hrel := h.release hget (by simp) (.inr ⟨p, rfl, fun _ => rfl⟩)
  ⟨hrel.same hs, trivial, (keeps_release hown).same hs, gains_none rfl⟩

theorem started_same (P : Pool) (filler : Bool) : SameSlots P (P.started filler) := by
  unfold Pool.started
  split <;> exact ⟨rfl, rfl, rfl, rfl, rfl⟩

/-- The start's process is kept in its slot. -/
theorem effect_keep {p : ℕ} {held : Held} (filler : Bool)
    (h : PoolInv m P) (hown : c.token? = some token)
    (hget : P.workers.get? token = some ⟨held, some p⟩)
    (hopen : (⟨held, some p⟩ : Slot).Open P.exited) (hc' : c'.token? = none)
    (hpart : PartInv ((P.keep token p).started filler) c') :
    Effect m P c ((P.keep token p).started filler) c' :=
  ⟨(h.keep hget hopen).same (started_same _ _), hpart, (keeps_set hown _).same (started_same _ _),
    gains_none hc'⟩

/-- **Every step of every caller.** -/
theorem Step.effect {async : Bool}
    (hs : Step async P c P' c') (h : PoolInv m P) (hc : PartInv P c) : Effect m P c P' c' := by
  cases hs with
  | pops | popsNone | arrives | retired | givesUp | interrupted | fillerEnds | publishes | tooLate =>
    exact effect_same h ⟨rfl, rfl, rfl, rfl, rfl⟩ trivial (gains_none rfl)
  | reserves hopen hroom => exact effect_reserve h hroom ⟨rfl, rfl, rfl, rfl, rfl⟩
  | takes hopen hroom hready halive | retires hopen hroom hready | polls hopen hroom hready
  | fillerPolls =>
    rw [h.available]
    exact effect_live h ⟨rfl, rfl, rfl, rfl, rfl⟩ trivial (gains_none rfl)
  | fills hopen hroom hwaiters hav => exact effect_reserve h hav ⟨rfl, rfl, rfl, rfl, rfl⟩
  | @hands _ p token hh =>
    obtain ⟨hinv, hget, rfl⟩ := h.handOver hh
    refine ⟨hinv, get?_set_self, ⟨fun t slot _ hslot hheld => ?_, List.Subset.refl _⟩, ?_⟩
    · have hne : t ≠ token := by
        rintro rfl
        rw [hget] at hslot
        cases hslot
        exact hheld p rfl
      exact (get?_set_ne hne).trans hslot
    · intro t ht
      cases ht
      exact .inr (.inr ⟨_, p, hget, rfl⟩)
  | noSlot hh =>
    obtain rfl := handOver_none hh
    exact effect_same h ⟨rfl, rfl, rfl, rfl, rfl⟩ trivial (gains_none rfl)
  | killFails | abandons => exact effect_release h rfl hc ⟨rfl, rfl, rfl, rfl, rfl⟩
  | killed => exact effect_same h ⟨rfl, rfl, rfl, rfl, rfl⟩ hc (gains_same rfl)
  | @oldExited token p hpending =>
    have hexited : p ∈ P.exited := by
      have hget : P.workers.get? token = some ⟨.handover p, none⟩ := hc
      simpa [Pool.replacementPending, hget] using hpending
    refine effect_same h ⟨rfl, rfl, rfl, rfl, rfl⟩ ⟨⟨_, hc, .inr ⟨p, rfl, hexited⟩⟩, ?_⟩
      (gains_same rfl)
    simpa using hexited
  | @spawns token old filler held hget =>
    obtain ⟨⟨slot, hslot, hopen⟩, hold⟩ := hc
    rw [hget] at hslot
    cases hslot
    refine ⟨h.spawn hget hopen, ⟨⟨_, get?_set_self, hopen⟩, hold⟩, ?_, gains_same rfl⟩
    have hset : Keeps P { P with workers := P.workers.set token ⟨held, some P.nextProc⟩ }
        (.starts token old filler) := keeps_set rfl _
    exact ⟨hset.slots, hset.exited⟩
  | @succeeds token p old filler held hget | @failsLate token p old filler held hasync hget =>
    obtain ⟨⟨slot, hslot, hopen⟩, -⟩ := hc
    rw [hget] at hslot
    cases hslot
    cases filler with
    | true => exact effect_keep _ h rfl hget hopen rfl trivial
    | false => exact effect_keep _ h rfl hget hopen rfl trivial
  | @fails token old filler slot hget hnone hasync =>
    obtain ⟨⟨slot', hslot, hopen⟩, -⟩ := hc
    rw [hget] at hslot
    cases hslot
    have hrel : PoolInv m (P.release token) := by
      refine h.release hget hnone (hopen.imp_right ?_)
      rintro ⟨q, hq, hgone⟩
      exact ⟨q, hq, fun halive => absurd hgone halive⟩
    refine ⟨hrel.same (started_same _ _), ?_, (keeps_release rfl).same (started_same _ _),
      gains_none ?_⟩
    · cases filler <;> trivial
    · cases filler <;> rfl

/-! ## Whole runs -/

theorem Slot.Open.mono {exited exited' : List ℕ} {slot : Slot} (h : slot.Open exited)
    (hsub : exited ⊆ exited') : slot.Open exited' :=
  h.imp_right fun ⟨p, hp, he⟩ => ⟨p, hp, hsub he⟩

/-- Processes exit, and the rest of the world goes on. -/
theorem Env.effect (he : Env P P') (h : PoolInv m P) : PoolInv m P' ∧ ∀ c, Keeps P P' c := by
  cases he with
  | exits p =>
    have hsub : P.exited ⊆ p :: P.exited := subset_cons_self p P.exited
    refine ⟨⟨h.maximum, h.length, h.tokens, h.below, h.nodup, fun q hq halive => ?_, fun e he => ?_⟩,
      fun c => ⟨fun _ _ _ hget _ => hget, hsub⟩⟩
    · exact h.accounted q hq fun hmem => halive (hsub hmem)
    · exact (h.settled e he).imp_right fun hopen => hopen.mono hsub
  | stats =>
    rw [h.available]
    exact ⟨h.live, keeps_live P⟩
  | closes => exact ⟨h.same ⟨rfl, rfl, rfl, rfl, rfl⟩,
      fun c => (keeps_refl P c).same ⟨rfl, rfl, rfl, rfl, rfl⟩⟩

theorem poolInv_new (m size : ℕ) : PoolInv m (.new (some m) size) where
  maximum := rfl
  length := Nat.zero_le m
  tokens := by simp [Pool.new, empty]
  below := by simp [Pool.new, Pool.procs, empty]
  nodup := by simp [Pool.new, Pool.procs, empty]
  accounted := by simp [Pool.new]
  settled := by simp [Pool.new, empty]

theorem Join.part (h : Join P c) : PartInv P c ∧ c.token? = none := by
  cases h with
  | checkout own | filler | swap p => exact ⟨trivial, rfl⟩

/-- **The invariant, over every interleaving.** -/
theorem pool_inv {async : Bool} {size : ℕ} {sys : Sys Pool Part}
    (h : PoolReachable async m size sys) :
    PoolInv m sys.shared ∧ (∀ c ∈ sys.parts, PartInv sys.shared c) ∧ sys.parts.Pairwise Apart := by
  refine Interleaving.reachable_apart (I := PoolInv m) (P := PartInv) (R := Apart) Apart.symm
    (poolInv_new m size) ?_ ?_ ?_ ?_ ?_ ?_ h
  · intro P c P' c' hs hI hc
    have heff := hs.effect hI hc
    exact ⟨heff.inv, heff.part⟩
  · intro P c P' c' d hs hI hc hd hapart
    have heff := hs.effect hI hc
    exact ⟨hd.keeps heff.keeps hapart, heff.gains.apart hd hapart⟩
  · exact fun hj _ => hj.part.1
  · intro P c d hj _ _ token _ hc
    rw [hj.part.2] at hc
    cases hc
  · exact fun he hI => (he.effect hI).1
  · intro P P' d he hI hd
    exact hd.keeps ((he.effect hI).2 .done) fun token hc => by cases hc

/-! ## Workers at once -/

/-- The slot that accounts for a process. -/
def Pool.tokenOf (P : Pool) (p : ℕ) : ℕ :=
  ((P.workers.entries.find? fun e => p ∈ e.2.procs).map Prod.fst).getD 0

/-- The worker lives: it was started and has not exited. -/
def Pool.Alive (P : Pool) (p : ℕ) : Prop := p < P.nextProc ∧ p ∉ P.exited

/-- The caller's start is running and has no live process yet. -/
def Part.bringsUp (P : Pool) : Part → Bool
  | .starts token _ _ =>
    match P.workers.get? token with
    | some slot => slot.spawned.all fun p => p ∈ P.exited
    | none => true
  | _ => false

section

variable {m : ℕ} {P : Pool}

theorem PoolInv.tokenOf (h : PoolInv m P) {p : ℕ} (hp : P.Alive p) :
    ∃ slot, P.workers.get? (P.tokenOf p) = some slot ∧ p ∈ slot.procs := by
  obtain ⟨e, he, hmem⟩ := mem_flatMap.1 (h.accounted p hp.1 hp.2)
  unfold Pool.tokenOf
  cases hf : P.workers.entries.find? fun e => p ∈ e.2.procs with
  | none => exact absurd hmem (by simpa using List.find?_eq_none.1 hf e he)
  | some e' =>
    refine ⟨e'.2, get?_of_mem (mem_of_find?_eq_some hf), ?_⟩
    simpa using List.find?_some hf

/-- A process is in one slot only. -/
theorem PoolInv.token_unique (h : PoolInv m P) {p t t' : ℕ} {slot slot' : Slot}
    (hget : P.workers.get? t = some slot) (hp : p ∈ slot.procs)
    (hget' : P.workers.get? t' = some slot') (hp' : p ∈ slot'.procs) : t = t' := by
  by_contra hne
  obtain ⟨before, after, hsplit, -, herase⟩ := split_of_get? hget
  have hother : (t', slot') ∈ before ++ after := by
    rw [← herase]
    exact mem_of_get? ((get?_erase_ne (Ne.symm hne)).trans hget')
  have hnodup := h.nodup
  simp only [Pool.procs, hsplit, flatMap_append, flatMap_cons, nodup_append,
    mem_append, mem_flatMap] at hnodup
  obtain ⟨-, ⟨-, -, hafter⟩, hbefore⟩ := hnodup
  rcases mem_append.1 hother with hmem | hmem
  · exact hbefore p ⟨_, hmem, hp'⟩ p (.inl hp) rfl
  · exact hafter p hp p ⟨_, hmem, hp'⟩ rfl

/-- A slot accounts for one live process at most. -/
theorem PoolInv.alive_unique (h : PoolInv m P) {p q t : ℕ} {slot : Slot}
    (hget : P.workers.get? t = some slot) (hp : p ∈ slot.procs) (hq : q ∈ slot.procs)
    (hpa : P.Alive p) (hqa : P.Alive q) : p = q := by
  have hheld : ∀ r ∈ slot.held.procs, ∀ r' ∈ slot.held.procs, r = r' := by
    cases slot.held <;> simp
  simp only [Slot.procs, mem_append, Option.mem_toList] at hp hq
  rcases h.settled _ (mem_of_get? hget) with hnone | hopen
  · simp only at hnone
    simp only [hnone, reduceCtorEq, or_false] at hp hq
    exact hheld p hp q hq
  · -- what is handed over has exited, so both are the start's own process
    have hgone : ∀ r ∈ slot.held.procs, r ∈ P.exited := by
      rcases hopen with hr | ⟨r', hr, hexited⟩
      · simp only at hr
        simp [hr]
      · simp only at hr
        simpa [hr] using hexited
    rcases hp with hp | hp
    · exact absurd (hgone p hp) hpa.2
    · rcases hq with hq | hq
      · exact absurd (hgone q hq) hqa.2
      · exact Option.mem_unique hp hq

/-- A start that has brought up nothing alive is in a slot of its own. -/
theorem PartInv.bringsUp {c : Part} (hc : PartInv P c) (hb : c.bringsUp P = true) :
    ∃ token slot, c.token? = some token ∧ P.workers.get? token = some slot ∧
      ∀ p ∈ slot.procs, p ∈ P.exited := by
  cases c with
  | starts token old filler =>
    obtain ⟨⟨slot, hget, hopen⟩, -⟩ := hc
    refine ⟨token, slot, rfl, hget, fun p hp => ?_⟩
    simp only [Part.bringsUp, hget, Option.all_eq_true, decide_eq_true_eq] at hb
    simp only [Slot.procs, mem_append, Option.mem_toList] at hp
    rcases hp with hp | hp
    · rcases hopen with hr | ⟨q, hq, hexited⟩
      · simp [hr] at hp
      · obtain rfl : p = q := by simpa [hq] using hp
        exact hexited
    · exact hb p hp
  | _ => cases hb

/-- **Live workers and starts under way have slots of their own.** -/
theorem PoolInv.at_once (h : PoolInv m P) {parts : List Part} (hparts : ∀ c ∈ parts, PartInv P c)
    (hapart : parts.Pairwise Apart) {alive : List ℕ} (hnodup : alive.Nodup)
    (halive : ∀ p ∈ alive, P.Alive p) : alive.length + parts.countP (Part.bringsUp P) ≤ m := by
  have hup : ∀ c ∈ parts.filter (Part.bringsUp P), PartInv P c ∧ c.bringsUp P = true := by
    intro c hc
    obtain ⟨hc, hb⟩ := mem_filter.1 hc
    exact ⟨hparts c hc, hb⟩
  let tokens := alive.map P.tokenOf ++ (parts.filter (Part.bringsUp P)).map fun c => c.token?.getD 0
  have htokens : tokens.Nodup := by
    refine nodup_append.2 ⟨?_, ?_, ?_⟩
    · refine hnodup.map_on fun p hp q hq heq => ?_
      obtain ⟨slot, hget, hmem⟩ := h.tokenOf (halive p hp)
      obtain ⟨slot', hget', hmem'⟩ := h.tokenOf (halive q hq)
      rw [← heq, hget] at hget'
      obtain rfl := Option.some.inj hget'
      exact h.alive_unique hget hmem hmem' (halive p hp) (halive q hq)
    · rw [List.Nodup, pairwise_map]
      refine (hapart.sublist filter_sublist).imp_of_mem fun {c d} hc hd hcd heq => ?_
      obtain ⟨t, -, ht, -⟩ := (hup c hc).1.bringsUp (hup c hc).2
      obtain ⟨t', -, ht', -⟩ := (hup d hd).1.bringsUp (hup d hd).2
      simp only [ht, ht', Option.getD_some] at heq
      exact hcd t ht (heq ▸ ht')
    · intro t ht t' ht' heq
      obtain ⟨p, hp, rfl⟩ := mem_map.1 ht
      obtain ⟨c, hc, rfl⟩ := mem_map.1 ht'
      obtain ⟨slot, hget, hmem⟩ := h.tokenOf (halive p hp)
      obtain ⟨t'', slot', htok, hget', hgone⟩ := (hup c hc).1.bringsUp (hup c hc).2
      rw [htok, Option.getD_some] at heq
      rw [heq, hget'] at hget
      cases hget
      exact (halive p hp).2 (hgone p hmem)
  have hsub : tokens ⊆ P.workers.entries.map Prod.fst := by
    intro t ht
    rcases mem_append.1 ht with ht | ht
    · obtain ⟨p, hp, rfl⟩ := mem_map.1 ht
      obtain ⟨slot, hget, -⟩ := h.tokenOf (halive p hp)
      exact mem_map.2 ⟨_, mem_of_get? hget, rfl⟩
    · obtain ⟨c, hc, rfl⟩ := mem_map.1 ht
      obtain ⟨t'', slot, htok, hget, -⟩ := (hup c hc).1.bringsUp (hup c hc).2
      simp only [htok, Option.getD_some]
      exact mem_map.2 ⟨_, mem_of_get? hget, rfl⟩
  have hlen := (subperm_of_subset htokens hsub).length_le
  simp only [tokens, length_append, length_map] at hlen
  rw [countP_eq_length_filter]
  exact le_trans hlen h.length

end

/-- **What a pool with `max_workers = m` promises.** -/
structure Capped (m : ℕ) (sys : Sys Pool Part) : Prop where
  tokens : sys.shared.workers.entries.length ≤ m
  accounted : ∀ p, sys.shared.Alive p →
    ∃! token, ∃ slot, sys.shared.workers.get? token = some slot ∧ p ∈ slot.procs
  atOnce : ∀ alive : List ℕ, alive.Nodup → (∀ p ∈ alive, sys.shared.Alive p) →
    alive.length + sys.parts.countP (Part.bringsUp sys.shared) ≤ m
  replaces : ∀ token p filler, .starts token (some p) filler ∈ sys.parts → p ∈ sys.shared.exited

/-- **Worker capacity**, in the sync and in the async pool. -/
theorem pool_capped {async : Bool} {m size : ℕ} {sys : Sys Pool Part}
    (h : PoolReachable async m size sys) : Capped m sys := by
  obtain ⟨hI, hP, hR⟩ := pool_inv h
  refine ⟨hI.length, fun p hp => ?_, fun alive hnodup halive => hI.at_once hP hR hnodup halive, ?_⟩
  · obtain ⟨slot, hget, hmem⟩ := hI.tokenOf hp
    refine ⟨sys.shared.tokenOf p, ⟨slot, hget, hmem⟩, ?_⟩
    rintro token ⟨slot', hget', hmem'⟩
    exact hI.token_unique hget' hmem' hget hmem
  · intro token p filler hmem
    exact (hP _ hmem).2 p rfl

/-- With one slot, a session's worker is replaced once it has exited. -/
theorem pool_capped_replaced :
    ∃ sys, sys.parts = [.has 0, .starts 0 (some 0) false] ∧ PoolReachable false 1 1 sys ∧
      Capped 1 sys := by
  have hjoin := (Interleaving.reachable_nil : PoolReachable false 1 1 ⟨_, []⟩).joins (.checkout false)
  have hasks := hjoin.acts [] [] .arrives
  have hstarts := hasks.acts [] [] (.reserves rfl rfl)
  have hspawned := hstarts.acts [] [] (.spawns rfl)
  have hhas : PoolReachable false 1 1 ⟨_, [.has 0]⟩ := hspawned.acts [] [] (.succeeds rfl)
  have hswap := Interleaving.Reachable.joins hhas (.swap 0)
  have hhanded := hswap.acts [Part.has 0] [] (.hands rfl)
  have hwaits := hhanded.acts [Part.has 0] [] .killed
  have hexited := hwaits.changes (.exits 0)
  have hnew := hexited.acts [Part.has 0] [] (.oldExited rfl)
  exact ⟨_, rfl, hnew, pool_capped hnew⟩

end Pydeno.Workers
