import Pydeno.Lib.Interleaving
/-!
# The async pool

`AsyncSandboxPool` of `_sandbox_pool.py`: `start`, `_checkout`, `_fill`,
`close`, and `_new` inside them, as tasks of one event loop. A task runs from
one await to the next in one step, and may be cancelled at any of them. A
runtime is named by the number of its start.

What is followed is where each runtime goes: into the deque, to a caller, or to
its `close()`, which does its work once it has been entered, even if it is then
cancelled. Whether a slot is free is the capacity's business; here it may be or
not, at any time.

`careful` marks the runs in which `close()` is not called while `start()` is
bringing up the first runtime and is never cancelled itself, in which no
checkout is cancelled while it holds runtimes that it has taken from the deque,
and in which no worker dies while a checkout has it in hand for its caller.
-/

namespace Pydeno.Workers

/-! ## State -/

/-- How a start task ends. -/
inductive Outcome where
  | ok
  | failed
  deriving Repr, DecidableEq

/-- **What a checkout returned**: a runtime, and whether it was dead then. -/
structure Handout where
  runtime : ℕ
  dead : Bool
  deriving Repr, DecidableEq

/-- **An async pool**: its flags and its deque, and where runtimes have gone.
`dead` are those that `is_closed()`, `_killed` or `poll()` tell to be dead;
`dropped` those whose start failed; `lost` those that a cancelled task had in
its hands. -/
structure AsyncPool where
  started : Bool
  /-- `start()` is bringing up the first runtime. -/
  starting : Bool
  closed : Bool
  ready : List ℕ
  nextRuntime : ℕ
  outcomes : List (ℕ × Outcome)
  dead : List ℕ
  handed : List Handout
  closedRuntimes : List ℕ
  dropped : List ℕ
  lost : List ℕ
  /-- How many `close()` calls began, took the deque, were cancelled before. -/
  closesBegun : ℕ
  drains : ℕ
  closesCancelled : ℕ

def AsyncPool.new : AsyncPool where
  started := false
  starting := false
  closed := false
  ready := []
  nextRuntime := 0
  outcomes := []
  dead := []
  handed := []
  closedRuntimes := []
  dropped := []
  lost := []
  closesBegun := 0
  drains := 0
  closesCancelled := 0

/-- Who has called `_new`. -/
inductive Role where
  | starter
  | filler
  | checkout
  deriving Repr, DecidableEq

/-- **Where a task is.** -/
inductive Task where
  | startBegins
  | checkoutBegins
  | fills
  | closeBegins
  /-- `_new` looks for a slot. -/
  | asks (role : Role)
  /-- `_new` waits for its start task. -/
  | awaits (role : Role) (r : ℕ)
  /-- The clean-up of a cancelled `_new`. -/
  | discards (r : ℕ)
  /-- `_checkout` closes the dead runtimes it found, having chosen one or
  not. -/
  | closingDead (chosen : Option ℕ) (dead : List ℕ)
  /-- `close()` waits for the pool's tasks. -/
  | gathering
  /-- `close()` waits for the runtimes it took; some are not yet being
  closed. -/
  | closing (items : List ℕ)
  | ended
  deriving Repr, DecidableEq

/-- The runtimes that a task has in its hands. -/
def Task.owned : Task → List ℕ
  | .awaits _ r => [r]
  | .discards r => [r]
  | .closingDead chosen dead => chosen.toList ++ dead
  | .closing items => items
  | _ => []

/-- The one of them that a checkout is going to return. -/
def Task.offers : Task → Option ℕ
  | .awaits .checkout r => some r
  | .closingDead chosen _ => chosen
  | _ => none

namespace AsyncPool

/-- The runtimes that no task has in its hands. -/
def placed (P : AsyncPool) : List ℕ :=
  P.ready ++ P.handed.map Handout.runtime ++ P.closedRuntimes ++ P.dropped ++ P.lost

/-- What the end of `_new` by an exception means to its caller: `start()`
closes the pool. -/
def failure (P : AsyncPool) : Role → AsyncPool
  | .starter => { P with closed := true, starting := false }
  | _ => P

/-- Where a caller goes when `_new` has raised; a filler goes on. -/
def afterFailure : Role → Task
  | .filler => .fills
  | _ => .ended

/-- A start task is created for a new runtime. -/
def create (P : AsyncPool) : AsyncPool := { P with nextRuntime := P.nextRuntime + 1 }

/-- `rt.close()` is entered. -/
def close (P : AsyncPool) (r : ℕ) : AsyncPool :=
  { P with closedRuntimes := P.closedRuntimes ++ [r] }

/-- A checkout returns a runtime. -/
def hand (P : AsyncPool) (r : ℕ) : AsyncPool :=
  { P with handed := P.handed ++ [⟨r, r ∈ P.dead⟩] }

/-- What a role does with the runtime that `_new` returned, and where it goes. -/
def receive (P : AsyncPool) (r : ℕ) : Role → AsyncPool × Task
  | .starter => ({ P with ready := P.ready ++ [r], starting := false }, .ended)
  | .filler =>
    if P.closed then (P.close r, .ended) else ({ P with ready := P.ready ++ [r] }, .fills)
  | .checkout => (P.hand r, .ended)

/-- The deque as `_checkout` empties it: the dead runtimes at its head, the
first that lives, and the rest. -/
def look (P : AsyncPool) : List ℕ × Option ℕ × List ℕ :=
  let dead := P.ready.takeWhile fun r => r ∈ P.dead
  match P.ready.dropWhile fun r => r ∈ P.dead with
  | [] => (dead, none, [])
  | r :: rest => (dead, some r, rest)

/-- `_checkout` goes on once it has no dead runtimes left to close; it does not
look at the one it has chosen again. -/
def choose (P : AsyncPool) : Option ℕ → AsyncPool × Task
  | some r => (P.hand r, .ended)
  | none => (P, .asks .checkout)

end AsyncPool

/-! ## Steps -/

section

variable (careful : Bool)

/-- **One step of a task**: what it does between two awaits. -/
inductive TaskStep : AsyncPool → Task → AsyncPool → Task → Prop where
  | startRefused {P : AsyncPool} (hused : P.started = true ∨ P.closed = true) :
      TaskStep P .startBegins P .ended
  | startBegins {P : AsyncPool} (hnew : P.started = false) (hopen : P.closed = false) :
      TaskStep P .startBegins { P with started := true, starting := true } (.asks .starter)
  /-- A closed pool, no slot in time, a configuration that is refused, or a
  cancellation. -/
  | gives {P : AsyncPool} {role : Role} :
      TaskStep P (.asks role) (P.failure role) (AsyncPool.afterFailure role)
  /-- A filler comes with its slot, and may find the pool closed once the
  worker it replaces has exited. -/
  | reserves {P : AsyncPool} {role : Role} (hopen : P.closed = false ∨ role = .filler) :
      TaskStep P (.asks role) P.create (.awaits role P.nextRuntime)
  /-- No slot is free: a ready runtime is taken instead (`start()` finds the
  deque empty), -/
  | takes {P : AsyncPool} {r : ℕ} {rest : List ℕ} (hopen : P.closed = false)
      (hready : P.ready = r :: rest) (halive : r ∉ P.dead) :
      TaskStep P (.asks .checkout) ({ P with ready := rest }.hand r) .ended
  /-- or closed, to free its slot. -/
  | retires {P : AsyncPool} {role : Role} {r : ℕ} {rest : List ℕ} (hrole : role ≠ .filler)
      (hopen : P.closed = false) (hready : P.ready = r :: rest) :
      TaskStep P (.asks role) ({ P with ready := rest }.close r) (.asks role)
  | resumes {P : AsyncPool} {role : Role} {r : ℕ} (hok : (r, .ok) ∈ P.outcomes) :
      TaskStep P (.awaits role r) (P.receive r role).1 (P.receive r role).2
  | startFails {P : AsyncPool} {role : Role} {r : ℕ} (hfailed : (r, .failed) ∈ P.outcomes) :
      TaskStep P (.awaits role r) ({ P with dropped := P.dropped ++ [r] }.failure role)
        (AsyncPool.afterFailure role)
  | cancelled {P : AsyncPool} {role : Role} {r : ℕ} :
      TaskStep P (.awaits role r) (P.failure role) (.discards r)
  | discards {P : AsyncPool} {r : ℕ} (hok : (r, .ok) ∈ P.outcomes) :
      TaskStep P (.discards r) (P.close r) .ended
  | discardsNone {P : AsyncPool} {r : ℕ} (hfailed : (r, .failed) ∈ P.outcomes) :
      TaskStep P (.discards r) { P with dropped := P.dropped ++ [r] } .ended
  /-- Options that a checkout cannot set, a closed pool, one not started, or
  another event loop. -/
  | checkoutRefused {P : AsyncPool} : TaskStep P .checkoutBegins P .ended
  | finds {P : AsyncPool} {chosen : Option ℕ} {rest : List ℕ}
      (hopen : P.closed = false) (hstarted : P.started = true)
      (hlook : P.look = ([], chosen, rest)) :
      TaskStep P .checkoutBegins ({ P with ready := rest }.choose chosen).1
        ({ P with ready := rest }.choose chosen).2
  | findsDead {P : AsyncPool} {r : ℕ} {dead rest : List ℕ} {chosen : Option ℕ}
      (hopen : P.closed = false) (hstarted : P.started = true)
      (hlook : P.look = (r :: dead, chosen, rest)) :
      TaskStep P .checkoutBegins ({ P with ready := rest }.close r) (.closingDead chosen dead)
  | closesNext {P : AsyncPool} {r : ℕ} {dead : List ℕ} {chosen : Option ℕ} :
      TaskStep P (.closingDead chosen (r :: dead)) (P.close r) (.closingDead chosen dead)
  | closedAll {P : AsyncPool} {chosen : Option ℕ} :
      TaskStep P (.closingDead chosen []) (P.choose chosen).1 (P.choose chosen).2
  | checkoutCancelled {P : AsyncPool} {dead : List ℕ} {chosen : Option ℕ}
      (hcareful : careful = true → chosen = none ∧ dead = []) :
      TaskStep P (.closingDead chosen dead)
        { P with lost := P.lost ++ chosen.toList ++ dead } .ended
  | fills {P : AsyncPool} (hopen : P.closed = false) :
      TaskStep P .fills P (.asks .filler)
  /-- The pool is closed, or the filler is cancelled. -/
  | fillerEnds {P : AsyncPool} : TaskStep P .fills P .ended
  | closeBegins {P : AsyncPool} (hcareful : careful = true → P.starting = false) :
      TaskStep P .closeBegins { P with closed := true, closesBegun := P.closesBegun + 1 }
        .gathering
  | drains {P : AsyncPool} :
      TaskStep P .gathering { P with ready := [], drains := P.drains + 1 }
        (.closing P.ready)
  | gatherCancelled {P : AsyncPool} (hcareful : careful = false) :
      TaskStep P .gathering { P with closesCancelled := P.closesCancelled + 1 } .ended
  | closesItem {P : AsyncPool} {r : ℕ} {before after : List ℕ} :
      TaskStep P (.closing (before ++ r :: after)) (P.close r) (.closing (before ++ after))
  | closeEnds {P : AsyncPool} : TaskStep P (.closing []) P .ended
  | closeCancelled {P : AsyncPool} {items : List ℕ} (hcareful : careful = true → items = []) :
      TaskStep P (.closing items) { P with lost := P.lost ++ items } .ended

  /-- A worker dies that a task has in its hands. One that dies before it has
  started fails its start. -/
  | dies {P : AsyncPool} {c : Task} {r : ℕ} (howned : r ∈ c.owned)
      (hcareful : careful = true → c.offers ≠ some r) :
      TaskStep P c { P with dead := r :: P.dead } c

/-- Tasks begin at any time. -/
inductive TaskJoin : AsyncPool → Task → Prop where
  | start {P : AsyncPool} : TaskJoin P .startBegins
  | checkout {P : AsyncPool} : TaskJoin P .checkoutBegins
  | filler {P : AsyncPool} : TaskJoin P .fills
  | close {P : AsyncPool} : TaskJoin P .closeBegins

/-- A start task ends, once; a worker dies that is in no task's hands. -/
inductive LoopEnv : AsyncPool → AsyncPool → Prop where
  | startEnds {P : AsyncPool} (r : ℕ) (outcome : Outcome) (hcreated : r < P.nextRuntime)
      (hnew : r ∉ P.outcomes.map Prod.fst) :
      LoopEnv P { P with outcomes := P.outcomes ++ [(r, outcome)] }
  | dies {P : AsyncPool} {r : ℕ} (hplaced : r ∈ P.placed) : LoopEnv P { P with dead := r :: P.dead }

/-- The states of an async pool, over every interleaving. -/
def LoopReachable : Interleaving.Sys AsyncPool Task → Prop :=
  Interleaving.Reachable (TaskStep careful) TaskJoin LoopEnv .new

end

end Pydeno.Workers
