import Pydeno.Lib.Interleaving
/-!
# The threads that run sync gates

`_GatePool` of `_gate.py` and `set_gate_threads`, over every interleaving of
the threads that call `submit` and `set_gate_threads` and of the workers in
`_work`. A step is what one thread does up to the next point where another can
come between: what is done under the pool's lock is one step, but for
`submit`, where a worker that waits for a job can take the new one before it is
counted.

A job is named by the number of its `submit`. A thread that was started and has
not come to its first look at the pool is one of `unstarted`.
-/

namespace Pydeno.Gates

/-- `MAX_GATE_THREADS`. -/
def maxGateThreads : ℤ := 256

/-- **The pool.** `ran` are the jobs whose function was called, `skipped` those
whose caller had given up. -/
structure Pool where
  lock : Bool
  size : ℤ
  threads : ℤ
  idle : ℤ
  pending : ℤ
  jobs : List ℕ
  nextJob : ℕ
  unstarted : ℤ
  ran : List ℕ
  skipped : List ℕ

/-- `_GatePool()`, of a size. -/
def Pool.new (size : ℤ) : Pool where
  lock := false
  size := size
  threads := 0
  idle := 0
  pending := 0
  jobs := []
  nextJob := 0
  unstarted := 0
  ran := []
  skipped := []

/-- **Where a thread is.** -/
inductive Task where
  /-- `submit` is called, -/
  | submits
  /-- and has put the job into the queue; it holds the lock. -/
  | counts
  | resizes (count : ℤ)
  /-- `_work` is entered, -/
  | enters
  /-- is at the top of its loop again, -/
  | loops
  /-- waits in `jobs.get()`, -/
  | waits
  /-- has a job and has not counted it, -/
  | took (j : ℕ)
  /-- has counted it, -/
  | counted (j : ℕ)
  /-- and runs it. -/
  | runs (j : ℕ)
  | ended
  deriving Repr, DecidableEq

/-- **`submit`**, once the job is in the queue: a thread is started if no idle
one is left for the job and the size allows it. -/
def Pool.count (pool : Pool) : Pool :=
  if pool.pending + 1 > pool.idle ∧ pool.threads < pool.size then
    { pool with
      lock := false, pending := pool.pending + 1, threads := pool.threads + 1
      unstarted := pool.unstarted + 1 }
  else { pool with lock := false, pending := pool.pending + 1 }

/-- **The top of the loop of `_work`.** -/
def Pool.look (pool : Pool) : Pool × Task :=
  if pool.threads > pool.size then ({ pool with threads := pool.threads - 1 }, .ended)
  else ({ pool with idle := pool.idle + 1 }, .waits)

/-- A size that leaves no job waiting for a thread it would allow. -/
def Pool.Allows (pool : Pool) (count : ℤ) : Prop :=
  pool.pending ≤ pool.idle + pool.unstarted ∨ count ≤ pool.threads

section

variable (raising : Bool)

/-- **One step of a thread.** `raising` says that the size may be raised while
jobs wait for a thread. -/
inductive Step : Pool → Task → Pool → Task → Prop where
  | submits {pool : Pool} (hfree : pool.lock = false) :
      Step pool .submits
        { pool with
          lock := true, jobs := pool.jobs ++ [pool.nextJob], nextJob := pool.nextJob + 1 } .counts
  | counts {pool : Pool} : Step pool .counts pool.count .ended
  | resizes {pool : Pool} {count : ℤ} (hfree : pool.lock = false)
      (hrange : 1 ≤ count ∧ count ≤ maxGateThreads)
      (hallows : raising = false → pool.Allows count) :
      Step pool (.resizes count) { pool with size := count } .ended
  /-- `ValueError`. -/
  | resizeRefused {pool : Pool} {count : ℤ} (hrange : ¬(1 ≤ count ∧ count ≤ maxGateThreads)) :
      Step pool (.resizes count) pool .ended
  | enters {pool : Pool} (hfree : pool.lock = false) (hstarted : 0 < pool.unstarted) :
      Step pool .enters { pool.look.1 with unstarted := pool.unstarted - 1 } pool.look.2
  | loops {pool : Pool} (hfree : pool.lock = false) : Step pool .loops pool.look.1 pool.look.2
  | takes {pool : Pool} {j : ℕ} {rest : List ℕ} (hjobs : pool.jobs = j :: rest) :
      Step pool .waits { pool with jobs := rest } (.took j)
  | counted {pool : Pool} {j : ℕ} (hfree : pool.lock = false) :
      Step pool (.took j) { pool with idle := pool.idle - 1, pending := pool.pending - 1 }
        (.counted j)
  | runs {pool : Pool} {j : ℕ} :
      Step pool (.counted j) { pool with ran := pool.ran ++ [j] } (.runs j)
  /-- The caller has given up. -/
  | skips {pool : Pool} {j : ℕ} :
      Step pool (.counted j) { pool with skipped := pool.skipped ++ [j] } .loops
  | done {pool : Pool} {j : ℕ} : Step pool (.runs j) pool .loops

/-- Calls come at any time, and threads come to run when they were started. -/
inductive Join : Pool → Task → Prop where
  | submit {pool : Pool} : Join pool .submits
  | setGateThreads {pool : Pool} (count : ℤ) : Join pool (.resizes count)
  | thread {pool : Pool} : Join pool .enters

/-- The states of a pool of a size, over every interleaving. -/
def Reachable (size : ℤ) : Interleaving.Sys Pool Task → Prop :=
  Interleaving.Reachable (Step raising) Join (fun _ _ => False) (.new size)

end

end Pydeno.Gates
