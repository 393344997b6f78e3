import Mathlib
/-!
# The pump's limits

`_Pump` of `_isolated.py`: the state of the one command in flight, as far as
its limits go. Instants are readings of `time.monotonic()` in exact seconds;
each method that reads the clock takes its reading as the argument `now`. The
lock around every method makes each of them one step.

The hard deadline stops while a host callback is outstanding, and a console
call stops it too, but only up to an allowance of one hard deadline
(`consoleLeft`). The code marks "no console call in progress" by
`consoleAt = 0`.
-/

namespace Pydeno.Isolated

/-- `_Pump`, without the loop its asynchronous handlers run on. -/
structure Pump where
  hard : Option ℚ
  deadline : Option ℚ
  maxHostWait : Option ℚ
  cpuCap : Option ℚ
  cpuStart : Option ℚ
  outstanding : ℤ
  pausedAt : ℚ
  pausedTotal : ℚ
  consoleAt : ℚ
  consoleLeft : Option ℚ
  resumedAt : ℚ
  deriving Repr, DecidableEq

namespace Pump

/-- `_Pump.__init__`, called at the instant `now`. A hard timeout is a number
of seconds `_limit_seconds` accepted, so it is not negative. -/
def init (hardTimeout : Option ℚ≥0) (maxHostWait cpuCap cpuStart : Option ℚ) (now : ℚ) : Pump where
  hard := hardTimeout.map (↑)
  deadline := hardTimeout.map fun hard => now + hard
  maxHostWait := maxHostWait
  cpuCap := cpuCap
  cpuStart := cpuStart
  outstanding := 0
  pausedAt := 0
  pausedTotal := 0
  consoleAt := 0
  consoleLeft := hardTimeout.map (↑)
  resumedAt := 0

/-- `begin_call` -/
def beginCall (p : Pump) (now : ℚ) : Pump :=
  { p with
    pausedAt := if p.outstanding = 0 then now else p.pausedAt
    outstanding := p.outstanding + 1 }

/-- `end_call` -/
def endCall (p : Pump) (now : ℚ) : Pump :=
  if p.outstanding - 1 = 0 then
    let paused := now - p.pausedAt
    { p with
      outstanding := p.outstanding - 1
      resumedAt := now
      pausedTotal := p.pausedTotal + paused
      deadline := p.deadline.map (· + paused) }
  else
    { p with outstanding := p.outstanding - 1 }

/-- `begin_console` -/
def beginConsole (p : Pump) (now : ℚ) : Pump :=
  { p with consoleAt := now }

/-- `_console_grant`: how much of the console call in progress pauses the
deadline. -/
def consoleGrant (p : Pump) (now : ℚ) : ℚ :=
  match p.consoleLeft with
  | none => 0
  | some left =>
    if p.consoleAt = 0 ∨ p.outstanding ≠ 0 then 0
    else max 0 (min (now - max p.consoleAt p.resumedAt) left)

/-- `end_console` -/
def endConsole (p : Pump) (now : ℚ) : Pump :=
  match p.deadline with
  | none => { p with consoleAt := 0 }
  | some deadline =>
    let grant := p.consoleGrant now
    -- a grant of zero changes nothing, as in the source's `and grant`
    { p with
      deadline := some (deadline + grant)
      consoleLeft := p.consoleLeft.map (· - grant)
      consoleAt := 0 }

/-- `expired` -/
def expired (p : Pump) (now : ℚ) : Bool :=
  match p.deadline with
  | none => false
  | some deadline =>
    if p.outstanding ≠ 0 then false else decide (deadline + p.consoleGrant now < now)

/-- `waited_too_long` -/
def waitedTooLong (p : Pump) (now : ℚ) : Bool :=
  match p.maxHostWait with
  | none => false
  | some most =>
    let waited := if p.outstanding ≠ 0 then p.pausedTotal + (now - p.pausedAt) else p.pausedTotal
    decide (most < waited)

end Pump

/-- The calls on a pump that change its clock. -/
inductive PumpEvent where
  | beginCall
  | endCall
  | beginConsole
  | endConsole
  deriving Repr, DecidableEq

/-- A call on the pump and the instant at which it reads the clock. -/
structure Timed where
  now : ℚ
  event : PumpEvent
  deriving Repr, DecidableEq

namespace Pump

/-- One call on the pump. -/
def step (p : Pump) (e : Timed) : Pump :=
  match e.event with
  | .beginCall => p.beginCall e.now
  | .endCall => p.endCall e.now
  | .beginConsole => p.beginConsole e.now
  | .endConsole => p.endConsole e.now

/-- The pump after a sequence of calls on it. -/
def run (p : Pump) (events : List Timed) : Pump :=
  events.foldl step p

end Pump

end Pydeno.Isolated
