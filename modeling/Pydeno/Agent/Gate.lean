import Pydeno.Agent.Model.Gate

/-!
# Who is inside the gate, and who is resumed

The counters of the gate are the numbers of its tasks (`Counted`), so an exclusive call is
alone. A task that waits and was not resumed waits for a call inside, or, an ordinary one,
for an exclusive call that waits (`Waiting`). Only the cancellation of an exclusive call
while nobody is inside breaks this: it changes what ordinary calls wait for and resumes
none of them.
-/

namespace Pydeno.Agent.Gate

open List
open Interleaving (Sys)

/-! ## The counters -/

/-- A call inside. -/
def Task.isInside : Task → Bool
  | .inside _ => true
  | _ => false

/-- An exclusive call inside. -/
def Task.isAlone : Task → Bool
  | .inside e => e
  | _ => false

/-- An ordinary call inside. -/
def Task.isShared : Task → Bool
  | .inside e => !e
  | _ => false

/-- An exclusive call that waits. -/
def Task.isWaiting : Task → Bool
  | .waits e _ => e
  | _ => false

attribute [simp] Task.isInside Task.isAlone Task.isShared Task.isWaiting

/-- **The counters**, for the numbers of ordinary and of exclusive calls inside, and of
exclusive calls that wait. -/
structure Counted (g : Gate) (shared alone waiting : ℕ) : Prop where
  active : g.active = shared + alone
  exclusive : g.exclusive.toNat = alone
  apart : alone = 0 ∨ shared = 0
  waiting : g.waitingExclusive = waiting

variable {guarded all : Bool} {g g' : Gate} {c c' : Task} {i a w : ℕ} {sys : Sys Gate Task}

theorem Counted.attempt {e : Bool} (h : Counted g i a (w + e.toNat)) :
    Counted (g.attempt e).1 (i + (g.attempt e).2.isShared.toNat)
      (a + (g.attempt e).2.isAlone.toNat) (w + (g.attempt e).2.isWaiting.toNat) := by
  obtain ⟨h1, h2, h3, h4⟩ := h
  unfold Gate.attempt
  split
  next hready =>
    cases e with
    | true =>
      obtain ⟨hfree, hnone⟩ : g.exclusive = false ∧ g.active = 0 := by simpa [ready] using hready
      simp only [hfree, Bool.toNat_false, Bool.toNat_true] at h2 h4
      exact ⟨by simp [giveUp, h1, Nat.add_assoc], by simp [← h2], .inr (by simp; omega),
        by simp [giveUp, h4]⟩
    | false =>
      obtain ⟨hfree, -⟩ : g.exclusive = false ∧ g.waitingExclusive = 0 := by
        simpa [ready] using hready
      simp only [hfree, Bool.toNat_false] at h2 h4
      exact ⟨by simp [giveUp, h1, ← h2], by simp [giveUp, hfree, ← h2], .inl (by simp [← h2]),
        by simpa [giveUp] using h4⟩
  · exact ⟨h1, h2, h3, by cases e <;> exact h4⟩

/-- A step keeps the counters. -/
theorem Step.counted (hs : Step guarded g c g' c')
    (h : Counted g (i + c.isShared.toNat) (a + c.isAlone.toNat) (w + c.isWaiting.toNat)) :
    Counted g' (i + c'.isShared.toNat) (a + c'.isAlone.toNat)
      (w + c'.isWaiting.toNat) := by
  cases hs with
  | @enters e =>
    obtain ⟨h1, h2, h3, h4⟩ := h
    refine Counted.attempt ?_
    cases e || g.all with
    | true => exact ⟨h1, h2, h3, congrArg (· + 1) h4⟩
    | false => exact ⟨h1, h2, h3, h4⟩
  | wakes => exact h.attempt
  | @cancelled e =>
    obtain ⟨h1, h2, h3, h4⟩ := h
    cases e with
    | true => exact ⟨h1, h2, h3, congrArg (· - 1) h4⟩
    | false => exact ⟨h1, h2, h3, h4⟩
  | @leaves e =>
    obtain ⟨h1, h2, h3, h4⟩ := h
    cases e with
    | true =>
      have hle : g.exclusive.toNat ≤ 1 := Bool.toNat_le _
      simp only [Task.isShared, Task.isAlone, Bool.toNat_true] at h1 h2
      obtain rfl : a = 0 := by omega
      exact ⟨by simp [leave, h1], by simp [leave], .inl rfl, by simpa [leave] using h4⟩
    | false =>
      simp only [Task.isShared, Task.isAlone, Bool.not_false, Bool.toNat_true] at h1 h3
      obtain rfl : a = 0 := by simpa using h3
      exact ⟨by simp [leave, h1], by simpa [leave] using h2, .inl rfl, by simpa [leave] using h4⟩

theorem counted_of_reachable (h : Reachable guarded all sys) :
    Counted sys.shared (sys.parts.countP Task.isShared) (sys.parts.countP Task.isAlone)
      (sys.parts.countP Task.isWaiting) := by
  induction h with
  | refl => exact ⟨rfl, rfl, .inl rfl, rfl⟩
  | tail _ hmove ih =>
    cases hmove with
    | join parts hj =>
      obtain ⟨e, rfl⟩ := hj
      simpa [Task.isInside, Task.isWaiting] using ih
    | env parts he => exact he.elim
    | act before after hs =>
      -- what the other tasks count for
      have hsplit : ∀ (p : Task → Bool) (c : Task), (before ++ c :: after).countP p =
          (before ++ after).countP p + (p c).toNat := by
        intro p c
        cases hp : p c <;> simp [hp, Nat.add_assoc]
      simp only [hsplit] at ih ⊢
      exact hs.counted ih

/-! ## Wake-ups -/

/-- Something keeps a call out: one inside, or for an ordinary call one that waits. -/
def Held (g : Gate) (e : Bool) : Prop :=
  g.exclusive = true ∨ g.active ≠ 0 ∨ (e = false ∧ g.waitingExclusive ≠ 0)

/-- **A call that waits** was resumed, or is kept out. -/
def Waiting (g : Gate) : Task → Prop
  | .waits e since => since < g.notified ∨ (since = g.notified ∧ Held g e)
  | _ => True

theorem held_of_not_ready {e : Bool} (h : ¬ g.ready e = true) : Held g e := by
  cases hx : g.exclusive with
  | true => exact .inl hx
  | false => cases e <;> simp_all [ready, Held]

theorem waiting_attempt (g : Gate) (e : Bool) : Waiting (g.attempt e).1 (g.attempt e).2 := by
  unfold Gate.attempt
  split
  · trivial
  next hready => exact .inr ⟨rfl, held_of_not_ready hready⟩

/-- A round of one task keeps the others out, or goes inside. -/
theorem Waiting.attempt {e : Bool} (h : Waiting g c) : Waiting (g.attempt e).1 c := by
  unfold Gate.attempt
  split
  · cases c with
    | waits e' since =>
      have hnotified : (g.giveUp e).notified = g.notified := by cases e <;> rfl
      exact h.imp hnotified.symm.le.trans_lt' fun h => ⟨h.1.trans hnotified.symm, .inr (.inl (by simp))⟩
    | _ => trivial
  · exact h

/-- **A step leaves every other call resumed or kept out.** -/
theorem Step.waiting {d : Task} (hs : Step true g c g' c') (h : Waiting g d) : Waiting g' d := by
  cases d with
  | waits e since =>
    cases hs with
    | @enters e' =>
      refine Waiting.attempt ?_
      cases e' || g.all with
      | true =>
        exact h.imp id fun h => ⟨h.1, h.2.imp id fun h => h.imp id fun h =>
          ⟨h.1, Nat.succ_ne_zero _⟩⟩
      | false => exact h
    | wakes => exact h.attempt
    | @cancelled e' _ hguard =>
      cases e' with
      | true => exact h.imp id fun h => ⟨h.1, .inr (.inl (hguard rfl rfl))⟩
      | false => exact h
    | leaves =>
      refine .inl (Nat.lt_succ_of_le ?_)
      rcases h with h | h
      · exact h.le
      · exact h.1.le
  | _ => trivial

theorem waiting_of_reachable (h : Reachable true all sys) :
    ∀ c ∈ sys.parts, Waiting sys.shared c := by
  refine (Interleaving.reachable_parts (I := fun _ => True) (P := Waiting) trivial
    (fun hs _ _ => ⟨trivial, ?_⟩) (fun hs _ _ hd => hs.waiting hd) ?_ (fun he _ => he.elim)
    (fun he _ _ => he.elim) h).2
  · cases hs with
    | enters | wakes => exact waiting_attempt ..
    | cancelled | leaves => trivial
  · rintro _ _ ⟨e, rfl⟩ _
    trivial

/-! ## The gate -/

theorem countP_isInside (parts : List Task) : parts.countP Task.isInside =
    parts.countP Task.isShared + parts.countP Task.isAlone := by
  induction parts with
  | nil => rfl
  | cons c parts ih =>
    rw [countP_cons, countP_cons, countP_cons, ih]
    rcases c with _ | _ | (_ | _) | _ <;> simp <;> omega

/-- **The gate.** In every interleaving the active count is the number of calls inside, and
an exclusive call inside is the only one. Where no exclusive call is cancelled as it waits
while nobody is inside, every call that waits and may go on with nobody inside was resumed. -/
theorem gate_exact (guarded all : Bool) (sys : Sys Gate Task) (h : Reachable guarded all sys) :
    sys.shared.active = sys.parts.countP Task.isInside ∧
    (.inside true ∈ sys.parts → sys.parts.countP Task.isInside = 1) ∧
    (guarded = true → sys.parts.countP Task.isInside = 0 → ∀ e since,
      .waits e since ∈ sys.parts → sys.shared.ready e = true → since < sys.shared.notified) := by
  obtain ⟨hactive, hexclusive, hapart, hwaiting⟩ := counted_of_reachable h
  rw [countP_isInside]
  refine ⟨hactive, fun hin => ?_, ?_⟩
  · have hpos : 0 < sys.parts.countP Task.isAlone := countP_pos_iff.mpr ⟨_, hin, rfl⟩
    have hle : sys.shared.exclusive.toNat ≤ 1 := Bool.toNat_le _
    omega
  · rintro rfl hnone e since hw hready
    rcases waiting_of_reachable h _ hw with hlt | ⟨-, hheld⟩
    · exact hlt
    · have hfree : sys.shared.exclusive = false := Bool.toNat_eq_zero.mp (by omega)
      rcases hheld with hx | hx | ⟨rfl, hx⟩
      · nomatch hfree.symm.trans hx
      · omega
      · simp [ready, hx] at hready

/-- An exclusive call is inside alone while an ordinary one waits, which is resumed as the
first leaves. -/
theorem gate_exact_alone : ∃ sys sys', Reachable true false sys ∧ .inside true ∈ sys.parts ∧
    sys.parts.countP Task.isInside = 1 ∧ Reachable true false sys' ∧
    .waits false 0 ∈ sys'.parts ∧ sys'.shared.ready false = true ∧ 0 < sys'.shared.notified := by
  have h : Reachable true false ⟨.new false, []⟩ := Interleaving.reachable_nil
  have h : Reachable true false ⟨⟨1, true, 0, false, 0⟩, [.inside true]⟩ :=
    (h.joins ⟨true, rfl⟩).acts [] [] .enters
  have h : Reachable true false ⟨⟨1, true, 0, false, 0⟩, [.inside true, .waits false 0]⟩ :=
    (h.joins ⟨false, rfl⟩).acts [Task.inside true] [] .enters
  have h' : Reachable true false ⟨⟨0, false, 0, false, 1⟩, [.ended, .waits false 0]⟩ :=
    h.acts [] [Task.waits false 0] .leaves
  exact ⟨_, _, h, by simp, (gate_exact true false _ h).2.1 (by simp), h', by simp, rfl,
    (gate_exact true false _ h').2.2 rfl rfl false 0 (by simp) rfl⟩

/-- **An ordinary call is left waiting.** An ordinary and an exclusive call wait for an
exclusive one. It ends; the ordinary call looks first and waits for the other, which is
then cancelled. Nobody is inside, and nobody resumes the ordinary call. -/
theorem resumed_fails : ∃ sys, Reachable false false sys ∧
    sys.parts.countP Task.isInside = 0 ∧ .waits false 1 ∈ sys.parts ∧
    sys.shared.ready false = true ∧ ¬ 1 < sys.shared.notified := by
  have h : Reachable false false ⟨.new false, []⟩ := Interleaving.reachable_nil
  have h : Reachable false false ⟨⟨1, true, 0, false, 0⟩, [.inside true]⟩ :=
    (h.joins ⟨true, rfl⟩).acts [] [] .enters
  have h : Reachable false false ⟨⟨1, true, 0, false, 0⟩, [.inside true, .waits false 0]⟩ :=
    (h.joins ⟨false, rfl⟩).acts [Task.inside true] [] .enters
  have h : Reachable false false
      ⟨⟨1, true, 1, false, 0⟩, [.inside true, .waits false 0, .waits true 0]⟩ :=
    (h.joins ⟨true, rfl⟩).acts [Task.inside true, .waits false 0] [] .enters
  have h : Reachable false false ⟨⟨0, false, 1, false, 1⟩, [.ended, .waits false 0, .waits true 0]⟩ :=
    h.acts [] [Task.waits false 0, .waits true 0] .leaves
  have h : Reachable false false ⟨⟨0, false, 1, false, 1⟩, [.ended, .waits false 1, .waits true 0]⟩ :=
    h.acts [Task.ended] [.waits true 0] (.wakes Nat.one_pos)
  have h : Reachable false false ⟨⟨0, false, 0, false, 1⟩, [.ended, .waits false 1, .ended]⟩ :=
    h.acts [Task.ended, .waits false 1] [] (.cancelled nofun)
  exact ⟨_, h, rfl, by simp, rfl, by decide⟩

end Pydeno.Agent.Gate
