import Pydeno.Lib.Interleaving

/-!
# The gate of sequential tools

`_Gate` of `python/pydeno/integrations/pydantic_ai.py`, over every interleaving of the
tasks of one event loop. The condition's lock is only ever held between two awaits, so
taking it never waits, and a task goes on in one step from where it was resumed to where
it waits next. `notify_all` resumes the tasks that wait at that time: `notified` counts
its calls, and a task that waits keeps the count from when it began to.
-/

namespace Pydeno.Agent

/-- `_Gate` -/
structure Gate where
  active : ℕ
  exclusive : Bool
  waitingExclusive : ℕ
  all : Bool
  notified : ℕ

namespace Gate

/-- `_Gate(all_sequential)` -/
def new (allSequential : Bool) : Gate := ⟨0, false, 0, allSequential, 0⟩

/-- **Where a task is** with `hold`. -/
inductive Task where
  | calls (exclusive : Bool)
  | waits (exclusive : Bool) (since : ℕ)
  | inside (exclusive : Bool)
  | ended
  deriving DecidableEq

/-- The condition that a task waits for. -/
def ready (g : Gate) (exclusive : Bool) : Bool :=
  if exclusive then !g.exclusive && g.active == 0
  else !g.exclusive && g.waitingExclusive == 0

/-- `self._waiting_exclusive += 1`, of an exclusive call. -/
def arrive (g : Gate) (exclusive : Bool) : Gate :=
  if exclusive then { g with waitingExclusive := g.waitingExclusive + 1 } else g

/-- `self._waiting_exclusive -= 1`, of an exclusive call. -/
def giveUp (g : Gate) (exclusive : Bool) : Gate :=
  if exclusive then { g with waitingExclusive := g.waitingExclusive - 1 } else g

/-- One round of `wait_for`: the task goes inside or waits. -/
def attempt (g : Gate) (exclusive : Bool) : Gate × Task :=
  if g.ready exclusive then
    let g := g.giveUp exclusive
    ({ g with exclusive := g.exclusive || exclusive, active := g.active + 1 }, .inside exclusive)
  else (g, .waits exclusive g.notified)

/-- What `hold` does after its body. -/
def leave (g : Gate) (exclusive : Bool) : Gate :=
  { g with
    active := g.active - 1
    exclusive := if exclusive then false else g.exclusive
    notified := g.notified + 1 }

/-- **A step of a task.** With `guarded`, an exclusive call is cancelled as it waits only
while a call is inside. -/
inductive Step (guarded : Bool) : Gate → Task → Gate → Task → Prop where
  | enters {g : Gate} {e : Bool} :
      Step guarded g (.calls e) ((g.arrive (e || g.all)).attempt (e || g.all)).1
        ((g.arrive (e || g.all)).attempt (e || g.all)).2
  | wakes {g : Gate} {e : Bool} {since : ℕ} (h : since < g.notified) :
      Step guarded g (.waits e since) (g.attempt e).1 (g.attempt e).2
  /-- The wait is cancelled, resumed or not: it raises and notifies nobody. -/
  | cancelled {g : Gate} {e : Bool} {since : ℕ}
      (h : guarded = true → e = true → g.active ≠ 0) :
      Step guarded g (.waits e since) (g.giveUp e) .ended
  /-- The body has ended, or was cancelled. -/
  | leaves {g : Gate} {e : Bool} : Step guarded g (.inside e) (g.leave e) .ended

/-- A task that is about to call `hold`. -/
def Joins (_ : Gate) (c : Task) : Prop := ∃ e, c = .calls e

/-- The states that any number of tasks reach. -/
def Reachable (guarded allSequential : Bool) : Interleaving.Sys Gate Task → Prop :=
  Interleaving.Reachable (Step guarded) Joins (fun _ _ => False) (.new allSequential)

end Gate

end Pydeno.Agent
