import Pydeno.Gates.Model.Threads
/-!
# The gate threads use what they may

A job is run once at most, the pool's counters are the numbers of threads, of
idle threads and of waiting jobs (`Accurate`), and a job waits for a thread only
when there are as many threads as the size allows (`Saturated`), as long as the
size is not raised while jobs wait.

Threads are started by `submit` alone. When the size is raised, the jobs that
wait go on waiting (`saturated_fails`).
-/

namespace Pydeno.Gates

open List Interleaving

/-! ## The properties -/

/-- A worker in `_work`. -/
def Task.worker : Task → ℤ
  | .loops | .waits | .took _ | .counted _ | .runs _ => 1
  | _ => 0

/-- A worker that waits for a job. -/
def Task.idle : Task → ℤ
  | .waits => 1
  | _ => 0

/-- A worker that has a job and has not counted it. -/
def Task.uncounted : Task → ℤ
  | .took _ => 1
  | _ => 0

/-- A `submit` that has not counted its job. -/
def Task.counting : Task → ℤ
  | .counts => 1
  | _ => 0

attribute [simp] Task.worker Task.idle Task.uncounted Task.counting

/-- The threads that were started and have not ended. -/
def threads (sys : Sys Pool Task) : ℤ :=
  sys.shared.unstarted + (sys.parts.map Task.worker).sum

/-- **The counters are the actual numbers.** What a worker has taken counts as
waiting, and the worker as idle, until it has said so; `submit` counts its job
before it gives up the lock. -/
structure Accurate (sys : Sys Pool Task) : Prop where
  threads : sys.shared.threads = threads sys
  idle : sys.shared.idle = (sys.parts.map fun c => c.idle + c.uncounted).sum
  pending : sys.shared.lock = false →
    sys.shared.pending = sys.shared.jobs.length + (sys.parts.map Task.uncounted).sum

/-- **No job waits for a thread that the size would allow**: if there are more
jobs than idle and starting threads, there are as many threads as the size. -/
def Saturated (sys : Sys Pool Task) : Prop :=
  sys.shared.lock = false →
    (sys.parts.map Task.idle).sum + sys.shared.unstarted < sys.shared.jobs.length →
    sys.shared.size ≤ threads sys

section

variable {raising : Bool} {size : ℤ} {sys : Sys Pool Task}
variable {pool pool' : Pool} {c c' : Task}

/-! ## The counters -/

/-- What a step does to the counters. -/
theorem Step.counters (h : Step raising pool c pool' c') :
    pool'.threads + (pool.unstarted + c.worker) = pool.threads + (pool'.unstarted + c'.worker) ∧
    pool'.idle + (c.idle + c.uncounted) = pool.idle + (c'.idle + c'.uncounted) ∧
    pool'.pending + (pool.jobs.length + (c.uncounted - c.counting))
      = pool.pending + (pool'.jobs.length + (c'.uncounted - c'.counting)) := by
  cases h with
  | counts =>
    unfold Pool.count
    split
    · simp
      omega
    · simp
      omega
  | enters hfree hstarted =>
    unfold Pool.look
    split
    · simp
      omega
    · simp
  | loops hfree =>
    unfold Pool.look
    split <;> simp
  | takes hjobs => simp [hjobs]
  | _ => simp

theorem Join.weightless (h : Join pool c) :
    c.worker = 0 ∧ c.idle + c.uncounted = 0 ∧ c.uncounted - c.counting = 0 := by
  cases h <;> exact ⟨rfl, rfl, rfl⟩

section

variable (h : Reachable raising size sys)
include h

theorem threads_of_reachable : sys.shared.threads = threads sys := by
  refine reachable_balance (P := fun _ => True) (f := fun pool : Pool => pool.threads)
    (g := fun pool => pool.unstarted) ?_ ?_ ?_ ?_ ?_ h
  · rfl
  · exact fun _ _ => trivial
  · exact fun hs _ => hs.counters.1
  · exact fun hjoin => ⟨trivial, hjoin.weightless.1⟩
  · exact False.elim

theorem idle_of_reachable :
    sys.shared.idle = (sys.parts.map fun c => c.idle + c.uncounted).sum := by
  have hbalance : sys.shared.idle = 0 + (sys.parts.map fun c => c.idle + c.uncounted).sum := by
    refine reachable_balance (P := fun _ => True) (f := fun pool : Pool => pool.idle)
      (g := fun _ => 0) ?_ ?_ ?_ ?_ ?_ h
    · rfl
    · exact fun _ _ => trivial
    · intro pool c pool' c' hs _
      have := hs.counters.2.1
      omega
    · exact fun hjoin => ⟨trivial, hjoin.weightless.2.1⟩
    · exact False.elim
  simpa using hbalance

theorem pending_of_reachable : sys.shared.pending
      = sys.shared.jobs.length + (sys.parts.map fun c => c.uncounted - c.counting).sum := by
  refine reachable_balance (P := fun _ => True) (f := fun pool : Pool => pool.pending)
    (g := fun pool => (pool.jobs.length : ℤ)) ?_ ?_ ?_ ?_ ?_ h
  · rfl
  · exact fun _ _ => trivial
  · exact fun hs _ => hs.counters.2.2
  · exact fun hjoin => ⟨trivial, hjoin.weightless.2.2⟩
  · exact False.elim

end

/-! ## The lock -/

/-- A step gives up the lock only if it is `submit`'s, and takes it only if it
is free. -/
theorem Step.lock (h : Step raising pool c pool' c') :
    (pool.lock = true → c ≠ .counts → pool'.lock = true ∧ c' ≠ .counts) ∧
      (c' = .counts → pool'.lock = true) := by
  cases h with
  | counts => exact ⟨fun _ hc => absurd rfl hc, by simp⟩
  | submits hfree => exact ⟨fun hl => by simp [hfree] at hl, fun _ => rfl⟩
  | enters hfree | loops hfree =>
    exact ⟨fun hl => by simp [hfree] at hl, by unfold Pool.look; split <;> simp⟩
  | _ => exact ⟨fun hl _ => ⟨hl, by simp⟩, by simp⟩

/-- Whoever counts a job holds the lock. -/
theorem locked_of_reachable (h : Reachable raising size sys) :
    ∀ c ∈ sys.parts, c = .counts → sys.shared.lock = true := by
  refine (reachable_apart (I := fun _ => True)
    (P := fun pool c => c = .counts → pool.lock = true)
    (R := fun c d => ¬(c = .counts ∧ d = .counts)) ?_ ?_ ?_ ?_ ?_ ?_ ?_ ?_ h).2.1
  · exact fun hR hdc => hR hdc.symm
  · trivial
  · exact fun hs _ _ => ⟨trivial, hs.lock.2⟩
  · intro pool c pool' c' d hs _ _ hd hR
    refine ⟨fun hdc => ?_, fun hcd => ?_⟩
    · exact (hs.lock.1 (hd hdc) fun hc => hR ⟨hc, hdc⟩).1
    · exact (hs.lock.1 (hd hcd.2) fun hc => hR ⟨hc, hcd.2⟩).2 hcd.1
  · intro pool c hjoin _
    cases hjoin <;> simp
  · rintro pool c d hjoin _ _ ⟨-, rfl⟩
    cases hjoin
  · exact False.elim
  · exact False.elim

/-- While the lock is free no job is being counted. -/
theorem counting_eq_zero {parts : List Task} (h : ∀ c ∈ parts, c ≠ .counts) :
    (parts.map fun c => c.uncounted - c.counting).sum = (parts.map Task.uncounted).sum := by
  refine congrArg List.sum (map_congr_left fun c hc => ?_)
  have hzero : c.counting = 0 := by
    cases c with
    | counts => exact absurd rfl (h _ hc)
    | _ => rfl
  omega

/-- **The counters are the actual numbers.** -/
theorem accurate_of_reachable (h : Reachable raising size sys) : Accurate sys where
  threads := threads_of_reachable h
  idle := idle_of_reachable h
  pending hfree := by
    rw [pending_of_reachable h, counting_eq_zero]
    intro c hc hcounts
    simp [locked_of_reachable h c hc hcounts] at hfree

/-! ## Waiting jobs -/

/-- **A step leaves no job waiting** for a thread that the size would allow,
unless it raises the size. -/
theorem Step.allows (h : Step false pool c pool' c')
    (hI : pool.Allows pool.size ∧ 0 ≤ pool.unstarted) :
    pool'.Allows pool'.size ∧ 0 ≤ pool'.unstarted := by
  obtain ⟨hallows, hunstarted⟩ := hI
  unfold Pool.Allows at *
  cases h with
  | counts =>
    unfold Pool.count
    split
    · simp only
      omega
    · simp only
      omega
  | resizes hfree hrange hok => exact ⟨hok rfl, hunstarted⟩
  | enters hfree hstarted | loops hfree =>
    unfold Pool.look
    split
    · simp only
      omega
    · simp only
      omega
  | counted hfree =>
    simp only
    omega
  | _ => exact ⟨hallows, hunstarted⟩

theorem saturated_of_reachable (h : Reachable false size sys) : Saturated sys := by
  intro hfree hwait
  have hallows : sys.shared.Allows sys.shared.size :=
    (reachable_parts (I := fun pool => pool.Allows pool.size ∧ 0 ≤ pool.unstarted)
      (P := fun _ _ => True) ⟨.inl (Int.le_refl 0), Int.le_refl 0⟩
      (fun hs hI _ => ⟨hs.allows hI, trivial⟩) (fun _ _ _ _ => trivial) (fun _ _ => trivial) False.elim False.elim h).1.1
  have hA := accurate_of_reachable h
  have hidle : sys.shared.idle
      = (sys.parts.map Task.idle).sum + (sys.parts.map Task.uncounted).sum := by
    rw [hA.idle, sum_map_add]
  have hpending := hA.pending hfree
  rw [← hA.threads]
  unfold Pool.Allows at hallows
  omega

/-! ## Jobs run once -/

/-- A worker that has a job and has not begun it. -/
def Task.has (j : ℕ) : Task → ℕ
  | .took i => if i = j then 1 else 0
  | .counted i => if i = j then 1 else 0
  | _ => 0

/-- What a step does to a job: it is in one place, from its `submit` on. -/
theorem Step.custody (h : Step raising pool c pool' c') (j : ℕ) :
    (if j < pool'.nextJob then 1 else 0)
        + (pool.jobs.count j + pool.ran.count j + pool.skipped.count j + c.has j)
      = (if j < pool.nextJob then 1 else 0)
        + (pool'.jobs.count j + pool'.ran.count j + pool'.skipped.count j + c'.has j) := by
  cases h with
  | submits =>
    simp only [Task.has, count_append, count_singleton, beq_iff_eq]
    split <;> split <;> split <;> omega
  | counts =>
    unfold Pool.count
    split <;> rfl
  | enters | loops =>
    unfold Pool.look
    split <;> rfl
  | takes hjobs =>
    simp only [Task.has, hjobs, count_cons, beq_iff_eq]
    omega
  | runs | skips =>
    simp only [Task.has, count_append, count_singleton, beq_iff_eq]
    omega
  | _ => rfl

/-- The places where a job is. -/
def places (sys : Sys Pool Task) (j : ℕ) : ℕ :=
  sys.shared.jobs.count j + sys.shared.ran.count j + sys.shared.skipped.count j
    + (sys.parts.map (Task.has j)).sum

theorem places_of_reachable (h : Reachable raising size sys) (j : ℕ) :
    (if j < sys.shared.nextJob then 1 else 0) = places sys j := by
  refine reachable_balance (P := fun _ => True) (w := Task.has j)
    (f := fun pool : Pool => if j < pool.nextJob then 1 else 0)
    (g := fun pool => pool.jobs.count j + pool.ran.count j + pool.skipped.count j)
    ?_ ?_ ?_ ?_ ?_ h
  · simp [Pool.new]
  · exact fun _ _ => trivial
  · exact fun hs _ => hs.custody j
  · intro pool c hjoin
    cases hjoin <;> exact ⟨trivial, rfl⟩
  · exact False.elim

/-- **A job is run once at most**, and not at all if it is skipped. -/
theorem ran_nodup (h : Reachable raising size sys) : (sys.shared.ran ++ sys.shared.skipped).Nodup := by
  rw [nodup_iff_count_le_one]
  intro j
  have hplaces := places_of_reachable h j
  have hle : (if j < sys.shared.nextJob then 1 else 0) ≤ 1 := by split <;> omega
  rw [places] at hplaces
  rw [count_append]
  omega

/-- **No job is lost**: each one submitted waits, is in a worker's hands, was run or was
skipped, and is there once. -/
theorem job_kept (h : Reachable raising size sys) {j : ℕ} (hj : j < sys.shared.nextJob) :
    places sys j = 1 := by
  rw [← places_of_reachable h, if_pos hj]

/-! ## The pool -/

/-- **The gate threads use what they may**, unless the size is raised while jobs
wait. -/
theorem gate_pool (h : Reachable raising size sys) :
    sys.shared.ran.Nodup ∧ Accurate sys ∧ (raising = false → Saturated sys) := by
  refine ⟨(nodup_append.1 (ran_nodup h)).1, accurate_of_reachable h, ?_⟩
  rintro rfl
  exact saturated_of_reachable h

end

/-- The first job is running, on the only thread of a pool of size one. -/
theorem reachable_running (raising : Bool) : Reachable raising 1
    ⟨{ Pool.new 1 with threads := 1, nextJob := 1, ran := [0] }, [.ended, .runs 0]⟩ := by
  have hsubmit := (reachable_nil : Reachable raising 1 ⟨.new 1, []⟩).joins .submit
  have hcounts := hsubmit.acts [] [] (.submits rfl)
  have hended := hcounts.acts [] [] .counts
  have hthread := hended.joins .thread
  have hwaits := hthread.acts [Task.ended] [] (.enters rfl (by decide))
  have hwaiting : Reachable raising 1 ⟨_, [.ended, .waits]⟩ := hwaits
  have htakes := Interleaving.Reachable.acts [Task.ended] [] hwaiting (.takes rfl)
  have hcounted := htakes.acts [Task.ended] [] (.counted rfl)
  exact hcounted.acts [Task.ended] [] .runs

theorem job_kept_running : ∃ sys, Reachable true 1 sys ∧ 0 < sys.shared.nextJob ∧ places sys 0 = 1 :=
  ⟨_, reachable_running true, by decide, job_kept (reachable_running true) (by decide)⟩

/-- A second job is submitted while the only thread runs the first. -/
theorem reachable_queued (raising : Bool) : Reachable raising 1
    ⟨{ Pool.new 1 with threads := 1, nextJob := 2, ran := [0], jobs := [1], pending := 1 },
      [.ended, .runs 0, .ended]⟩ := by
  have hsubmit := (reachable_running raising).joins .submit
  have hcounts := hsubmit.acts [Task.ended, .runs 0] [] (.submits rfl)
  exact hcounts.acts [Task.ended, .runs 0] [] .counts

theorem gate_pool_running : ∃ sys, Reachable false 1 sys ∧ sys.shared.ran = [0] ∧
    sys.shared.jobs = [1] ∧ sys.shared.ran.Nodup ∧ Accurate sys ∧ Saturated sys := by
  have h := reachable_queued false
  obtain ⟨hran, haccurate, hsaturated⟩ := gate_pool h
  exact ⟨_, h, rfl, rfl, hran, haccurate, hsaturated rfl⟩

/-- **A job waits although the size would allow another thread.** The only thread
is busy, a second job is submitted, and then the size is raised to two. -/
theorem saturated_fails : ∃ sys, Reachable true 1 sys ∧ ¬Saturated sys := by
  have hresize := (reachable_queued true).joins (.setGateThreads 2)
  have hraised := hresize.acts [Task.ended, .runs 0, .ended] [] (.resizes rfl (by decide) nofun)
  refine ⟨_, hraised, fun hsaturated => ?_⟩
  exact absurd (hsaturated rfl (by decide)) (by decide)

end Pydeno.Gates
