import Pydeno.Agent.Model.Limiter
/-!
# The limiter issues calls in order

`active` counts the unsettled calls, and calls wait only while it is at the limit
(`Ok`). A slot that is released is taken by the head of the queue before guest code
runs again, so the recursion of `release` leaves this as it is.
-/

namespace Pydeno.Agent.Limiter

open List

/-- **What holds of the limiter.** -/
structure Ok (limit : ℕ) (s : Limiter) : Prop where
  active : s.active = s.unsettled.length
  bound : s.active ≤ limit
  full : s.queue ≠ [] → s.active = limit
  order : s.made = s.issued ++ s.queue

variable {limit : ℕ} {s s' : Limiter}

theorem ok_new : Ok limit .new := ⟨rfl, Nat.zero_le _, fun h => absurd rfl h, rfl⟩

/-- A slot is given up, and the head of the queue takes it. -/
theorem ok_release (hactive : s.active = s.unsettled.length + 1) (hbound : s.active ≤ limit)
    (hfull : s.queue ≠ [] → s.active = limit) (horder : s.made = s.issued ++ s.queue) :
    Ok limit (s.release limit) := by
  unfold release
  cases hqueue : s.queue with
  | nil =>
    refine ⟨?_, ?_, fun h => absurd rfl h, ?_⟩
    · simp only [hactive, Nat.add_sub_cancel]
      rfl
    · change s.active - 1 ≤ limit
      omega
    · rw [hqueue] at horder
      exact horder
  | cons next rest =>
    have hlimit := hfull (by rw [hqueue]; simp)
    simp only [if_pos (show s.active - 1 < limit by omega)]
    refine ⟨?_, ?_, fun _ => ?_, ?_⟩
    · simp only [issue, unsettled, cons_append, length_cons] at hactive ⊢
      omega
    · change s.active - 1 + 1 ≤ limit
      omega
    · change s.active - 1 + 1 = limit
      omega
    · simp [issue, horder, hqueue]

theorem Ok.track (h : Ok limit s) : Ok limit (s.track limit) := by
  unfold Limiter.track
  simp only
  split
  next hlt =>
    have hempty : s.queue = [] := by
      by_contra hne
      exact absurd (h.full hne) (Nat.ne_of_lt hlt)
    refine ⟨?_, hlt, fun hne => absurd hempty hne, ?_⟩
    · simp [issue, h.active, unsettled]
    · simp [issue, h.order, hempty]
  next hfull =>
    have hbound := h.bound
    exact ⟨h.active, hbound, fun _ => by simp only at hfull ⊢; omega, by simp [h.order]⟩

theorem Step.ok (hs : Step limit s s') (h : Ok limit s) : Ok limit s' := by
  have hactive := h.active
  unfold unsettled at hactive
  cases hs with
  | calls => exact h.track
  | returns happlying =>
    refine ⟨?_, h.bound, h.full, h.order⟩
    simp only [hactive, unsettled, happlying, length_append, length_cons]
    omega
  | throws happlying =>
    refine ok_release ?_ h.bound h.full h.order
    simp only [hactive, unsettled, happlying, length_append, length_cons]
    omega
  | settles happlying hcall =>
    refine ok_release ?_ h.bound h.full h.order
    have hpos := length_pos_of_mem hcall
    simp only [hactive, unsettled, happlying, nil_append, length_erase_of_mem hcall]
    omega

theorem ok_of_reachable (h : Reachable limit s) : Ok limit s := by
  induction h with
  | refl => exact ok_new
  | tail _ hs ih => exact hs.ok ih

/-- **The limiter.** At most `limit` underlying calls are unsettled, they are issued
in the order in which the wrapped calls were made, and a wrapped call waits only
while exactly `limit` are unsettled. -/
theorem calls_limited {limit : ℕ} {s : Limiter} (h : Reachable limit s) :
    s.unsettled.length ≤ limit ∧ s.made = s.issued ++ s.queue ∧
      (s.queue ≠ [] → s.unsettled.length = limit) := by
  obtain ⟨hactive, hbound, hfull, horder⟩ := ok_of_reachable h
  exact ⟨hactive ▸ hbound, horder, fun hne => hactive ▸ hfull hne⟩

/-- With a limit of one, the second of three calls throws as it takes the slot of the
first, and the third one takes it then. -/
theorem calls_limited_rethrown : ∃ s, Reachable 1 s ∧ s.issued = [0, 1, 2] ∧ s.unsettled = [2] ∧
    s.unsettled.length ≤ 1 := by
  have hnew : Reachable 1 .new := .refl
  have hcalls := ((hnew.tail .calls).tail .calls).tail .calls
  have hsettled := (hcalls.tail (.returns rfl)).tail (.settles rfl (mem_singleton_self 0))
  have hthrown := hsettled.tail (.throws rfl)
  exact ⟨_, hthrown, by decide, by decide, (calls_limited hthrown).1⟩

end Pydeno.Agent.Limiter
