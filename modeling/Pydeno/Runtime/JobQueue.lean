import Pydeno.Runtime.Dispatcher
/-!
# The job queue

The jobs that were handed to `submit_job` and those that became active, along a
run (`Logged`). The active job is the head of one queue and the pending jobs are
the rest of it, so that jobs become active in the order in which they were
submitted (`job_queue`).
-/

namespace Pydeno.Runtime.Dispatch

open List

/-- The active job and the pending ones. -/
def Rt.queue (s : Rt) : List ℕ := s.active.toList ++ s.pending

/-- The job that a step hands to `submit_job`: it was in hand, and is active or
pending now. -/
def submittedBy (s s' : Rt) : List ℕ := s.inHand.filter (· ∈ s'.queue)

/-- The job that a step makes the active one. -/
def activatedBy (s s' : Rt) : List ℕ := if s'.active = s.active then [] else s'.active.toList

/-- **A run and its history**: the jobs that were submitted, and those that became
active. -/
inductive Logged (grace : Bool) : Rt → List ℕ → List ℕ → Prop where
  | spawn : Logged grace .spawn [] []
  | step {s s' : Rt} {submitted activated : List ℕ} (h : Logged grace s submitted activated)
      (hs : Step grace s s') :
      Logged grace s' (submitted ++ submittedBy s s') (activated ++ activatedBy s s')

variable {grace : Bool} {s s' : Rt} {submitted activated : List ℕ}

theorem Logged.reachable (h : Logged grace s submitted activated) : Reachable grace s := by
  induction h with
  | spawn => exact .refl
  | step _ hs ih => exact ih.tail hs

theorem Ledger.nodup_held (h : Ledger s) : s.held.Nodup := nodup_iff_count_le_one.mpr h.nodup

/-- A job in hand is not in the queue. -/
theorem Ledger.not_mem_queue (h : Ledger s) {id : ℕ} (hid : id ∈ s.inHand) : id ∉ s.queue := by
  intro hq
  have hsplit := (nodup_append.mp (nodup_append.mp h.nodup_held).2.1).2.2
  refine hsplit id hid id ?_ rfl
  rw [← append_assoc]
  exact mem_append_left _ hq

theorem Ledger.nodup_queue (h : Ledger s) : s.queue.Nodup := by
  have hrest := (nodup_append.mp (nodup_append.mp h.nodup_held).2.1).2.1
  rw [← append_assoc] at hrest
  exact (nodup_append.mp hrest).1

/-! ## What a step does to the queue -/

/-- **What a step does to the queue.** -/
inductive Queues (s s' : Rt) : Prop where
  | same (hactive : s'.active = s.active) (hpending : s'.pending = s.pending)
      (hplace : s.place = .exited → s'.place = .exited)
  | completes (id : ℕ) (hhand : s.inHand = []) (hid : s.active = some id)
      (hactive : s'.active = s.pending.head?) (hpending : s'.pending = s.pending.tail)
      (hplace : s.place ≠ .exited)
  | submits (id : ℕ) (hhand : s.inHand = [id])
      (hqueue : (s.active = none ∧ s'.active = some id ∧ s'.pending = s.pending) ∨
        (s.active ≠ none ∧ s'.active = s.active ∧ s'.pending = s.pending ++ [id]))
      (hplace : s.place ≠ .exited)
  | cancels (hactive : s'.active = none) (hpending : s'.pending = [])
      (hplace : s'.place = .exited ∧ s.place ≠ .exited)

theorem Loop.queues (h : Loop s s') : Queues s s' := by
  cases h with
  | @pollFails id hat hid | @jobReady id hat hid =>
    exact .completes id (by simp only [Rt.inHand, hat]) hid rfl rfl (by rw [hat]; simp)
  | aborts hat | channelClosed hat | terminates hat =>
    exact .cancels rfl rfl ⟨rfl, by rw [hat]; simp⟩
  | @submits id hat =>
    refine .submits id (by simp only [Rt.inHand, hat]) ?_ (by rw [hat]; simp)
    unfold Rt.submitJob
    split
    next hnone =>
      exact .inl ⟨Option.isNone_iff_eq_none.mp hnone, rfl, rfl⟩
    next hsome =>
      exact .inr ⟨fun hnone => hsome (Option.isNone_iff_eq_none.mpr hnone), rfl, rfl⟩
  | polled hat | jobPending hat | passes hat | again hat | wakes hat | admits hat | runs hat
  | refuses hat | resumeFails hat | ran hat | shutsDown hat =>
    exact .same rfl rfl (by rw [hat]; simp)

theorem Step.queues (h : Step grace s s') : Queues s s' := by
  cases h with
  | loop h => exact h.queues
  | host h | others h => cases h <;> exact .same rfl rfl id

/-! ## Along a run -/

/-- **What holds along a run.** Jobs are dropped only as the loop is left. -/
structure Ordered (s : Rt) (submitted activated : List ℕ) : Prop where
  idle : s.active = none → s.pending = []
  order : ∃ dropped, submitted = activated ++ s.pending ++ dropped ∧
    (s.place ≠ .exited → dropped = [])

/-- The queue is as before, and so is what was logged. -/
theorem Ledger.quiet (hL : Ledger s) (hactive : s'.active = s.active)
    (hpending : s'.pending = s.pending) : submittedBy s s' = [] ∧ activatedBy s s' = [] := by
  refine ⟨?_, if_pos hactive⟩
  rw [submittedBy, Rt.queue, hactive, hpending, filter_eq_nil_iff]
  intro id hid
  simpa [Rt.queue] using hL.not_mem_queue hid

theorem Ordered.step (h : Ordered s submitted activated) (hL : Ledger s) (hs : Step grace s s') :
    Ordered s' (submitted ++ submittedBy s s') (activated ++ activatedBy s s') := by
  obtain ⟨hidle, dropped, hsplit, hdropped⟩ := h
  cases hs.queues with
  | same hactive hpending hplace =>
    obtain ⟨hsub, hact⟩ := hL.quiet hactive hpending
    rw [hsub, hact, append_nil, append_nil]
    refine ⟨?_, dropped, ?_, fun hne => hdropped fun heq => hne (hplace heq)⟩
    · rw [hactive, hpending]
      exact hidle
    · rw [hpending]
      exact hsplit
  | completes id hhand hid hactive hpending hplace =>
    have hsub : submittedBy s s' = [] := by rw [submittedBy, hhand]; rfl
    -- the next job is another one
    have hact : activatedBy s s' = s.pending.head?.toList := by
      rw [activatedBy, hactive, if_neg]
      intro heq
      have hnodup := hL.nodup_queue
      rw [Rt.queue, hid, Option.toList_some, singleton_append, nodup_cons] at hnodup
      exact hnodup.1 (mem_of_head? (heq.trans hid))
    have hnil := hdropped hplace
    rw [hsub, hact]
    cases hp : s.pending with
    | nil => exact ⟨by simp [hpending, hp], [], by simp [hsplit, hnil, hpending, hp], fun _ => rfl⟩
    | cons next rest =>
      refine ⟨by simp [hactive, hp], [], ?_, fun _ => rfl⟩
      simp [hsplit, hnil, hpending, hp]
  | submits id hhand hqueue hplace =>
    have hnil := hdropped hplace
    have hmem : id ∈ s'.queue := by
      rcases hqueue with ⟨-, hactive, -⟩ | ⟨-, -, hpending⟩
      · simp [Rt.queue, hactive]
      · simp [Rt.queue, hpending]
    have hsub : submittedBy s s' = [id] := by simp [submittedBy, hhand, hmem]
    rcases hqueue with ⟨hnone, hactive, hpending⟩ | ⟨hsome, hactive, hpending⟩
    · have hempty := hidle hnone
      have hact : activatedBy s s' = [id] := by simp [activatedBy, hactive, hnone]
      refine ⟨by simp [hactive], [], ?_, fun _ => rfl⟩
      simp [hsub, hact, hsplit, hnil, hpending, hempty]
    · have hact : activatedBy s s' = [] := if_pos hactive
      refine ⟨fun hnone => absurd (hactive.symm.trans hnone) hsome, [], ?_, fun _ => rfl⟩
      simp [hsub, hact, hsplit, hnil, hpending]
  | cancels hactive hpending hplace =>
    have hact : activatedBy s s' = [] := by simp [activatedBy, hactive]
    refine ⟨fun _ => hpending, s.pending ++ submittedBy s s', ?_, fun hne => absurd hplace.1 hne⟩
    simp [hact, hsplit, hdropped hplace.2, hpending]

theorem Logged.ordered (h : Logged grace s submitted activated) : Ordered s submitted activated := by
  induction h with
  | spawn => exact ⟨fun _ => rfl, [], rfl, fun _ => rfl⟩
  | step h hs ih => exact ih.step h.reachable.ledger hs

/-- **The job queue.** The one active job is not pending, nothing is pending without an
active job, jobs become active in the order in which they were submitted, and no job is
answered twice. -/
theorem job_queue {grace : Bool} {s : Rt} {submitted activated : List ℕ}
    (h : Logged grace s submitted activated) :
    (s.active.toList ++ s.pending).Nodup ∧ (s.active = none → s.pending = []) ∧
      activated <+: submitted ∧ (s.answers.map Prod.fst).Nodup := by
  obtain ⟨hidle, dropped, hsplit, -⟩ := h.ordered
  refine ⟨h.reachable.ledger.nodup_queue, hidle, ⟨s.pending ++ dropped, ?_⟩,
    (nodup_append.mp h.reachable.ledger.nodup_held).1⟩
  rw [hsplit, append_assoc]

/-- Two jobs are submitted, the first one is answered, and the second one is active. -/
theorem job_queue_two : ∃ s submitted activated, Logged false s submitted activated ∧
    submitted = [0, 1] ∧ s.active = some 1 ∧ s.answers = [(0, .result)] ∧
    activated <+: submitted := by
  have h : Logged false _ _ _ := .step .spawn (.others (.sendsJob rfl))
  have h := h.step (.loop (.polled rfl))
  have h := h.step (.loop (.jobPending rfl))
  have h := h.step (.loop (.passes rfl rfl))
  have h := h.step (.loop (.admits rfl rfl rfl rfl))
  have h := h.step (.loop (.submits rfl))
  have h := h.step (.others (.sendsJob rfl))
  have h := h.step (.loop (.polled rfl))
  have h := h.step (.loop (.jobPending rfl))
  have h := h.step (.loop (.passes rfl rfl))
  have h := h.step (.loop (.again rfl rfl))
  have h := h.step (.loop (.polled rfl))
  have h := h.step (.loop (.jobPending rfl))
  have h := h.step (.loop (.passes rfl rfl))
  have h := h.step (.loop (.admits rfl rfl rfl rfl))
  have h := h.step (.loop (.submits rfl))
  have h := h.step (.loop (.polled rfl))
  have h := h.step (.loop (.jobReady rfl rfl))
  exact ⟨_, _, _, h, by decide, rfl, rfl, (job_queue h).2.2.1⟩

end Pydeno.Runtime.Dispatch
