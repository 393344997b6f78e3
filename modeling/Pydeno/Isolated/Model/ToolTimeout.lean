import Pydeno.Isolated.Model.Calls
import Pydeno.Lib.Interleaving
/-!
# Calls under a tool timeout

`_TimedCall`, `_Outlasted`, `_run_timed_handler` and `_call_with_deadline` of
`_isolated.py`, as threads that interleave. A synchronous call has two: the
handler's, and the one that waits for it. An asynchronous one is a task and
the coroutine that waits for it. All calls of a session share the counter of
`_Outlasted`.

Everything done under the counter's lock is one step, as is an append to the
box, a read of it, and setting the event.
-/

namespace Pydeno.Isolated

open Wire (ascii)

/-! ## The shared counter -/

/-- `_TimedCall` -/
structure TimedCall where
  started : Bool
  done : Bool
  abandoned : Bool
  deriving Repr, DecidableEq

/-- `_Outlasted.begin` -/
def TimedCall.begin (call : TimedCall) : Bool × TimedCall :=
  if call.abandoned then (false, call) else (true, { call with started := true })

/-- `_Outlasted.finish`, with the counter. -/
def TimedCall.finish (call : TimedCall) (count : ℤ) : ℤ × TimedCall :=
  (if call.abandoned && call.started then count - 1 else count, { call with done := true })

/-- `_Outlasted.abandon`, with the counter. -/
def TimedCall.abandon (call : TimedCall) (count : ℤ) : Option ℤ × ℤ × TimedCall :=
  if call.done then (none, count, call)
  else
    let count := if call.started then count + 1 else count
    (some count, count, { call with abandoned := true })

/-! ## Synchronous calls -/

/-- Where the handler's thread is. -/
inductive WorkPc where
  | unborn
  | ready
  | running
  | finishing
  | setting
  | dead
  deriving Repr, DecidableEq

/-- Where the waiting thread is. -/
inductive WaitPc where
  | starting
  | waiting
  | looking
  | givingUp
  | taking
  | sending (reply : Reply)
  | finished
  /-- `box[0]` of an empty box has raised. -/
  | crashed

/-- **A synchronous call.** `outcome` is what the handler does, `none` if it
never ends; `sent` holds the replies given to `_send_reply`, which ends the
pause each time (`pauseEnds`); `ran` is whether the handler was run, and
`gaveUp` the call's flags at the moment the waiting thread gave it up. -/
structure ThreadCall where
  cid : ℤ
  outcome : Option Behaviour
  call : TimedCall
  work : WorkPc
  wait : WaitPc
  box : List Reply
  ended : Bool
  sent : List Reply
  pauseEnds : ℕ
  ran : Bool
  gaveUp : Option TimedCall

/-- A call as `_run_timed_handler` sets it up. -/
def ThreadCall.new (cid : ℤ) (outcome : Option Behaviour) : ThreadCall where
  cid := cid
  outcome := outcome
  call := ⟨false, false, false⟩
  work := .unborn
  wait := .starting
  box := []
  ended := false
  sent := []
  pauseEnds := 0
  ran := false
  gaveUp := none

/-- The reply to a call past its deadline. -/
def timeoutReply (cid : ℤ) : Reply :=
  .error cid (ascii "host function timed out") (ascii "TimeoutError")

section

variable (o : Options)

/-- One step of the handler's thread (`work`). -/
inductive WorkStep : ℤ → ThreadCall → ℤ → ThreadCall → Prop where
  | refused {count : ℤ} {c : ThreadCall} (hpc : c.work = .ready) (h : c.call.begin.1 = false) :
      WorkStep count c count { c with work := .finishing }
  | begins {count : ℤ} {c : ThreadCall} (hpc : c.work = .ready) (h : c.call.begin.1 = true) :
      WorkStep count c count { c with call := c.call.begin.2, work := .running, ran := true }
  | ends {count : ℤ} {c : ThreadCall} {b : Behaviour} (hpc : c.work = .running)
      (h : c.outcome = some b) :
      WorkStep count c count { c with box := c.box ++ (boxed o c.cid b).toList, work := .finishing }
  | finishes {count : ℤ} {c : ThreadCall} (hpc : c.work = .finishing) :
      WorkStep count c (c.call.finish count).1
        { c with call := (c.call.finish count).2, work := .setting }
  | sets {count : ℤ} {c : ThreadCall} (hpc : c.work = .setting) :
      WorkStep count c count { c with ended := true, work := .dead }

/-- One step of the waiting thread. The wait may run out at any time, and so
may the runtime be closed; both end the loop. A reply over the cap on
abandoned calls is sent like any other, after the worker is killed. -/
inductive WaitStep : ℤ → ThreadCall → ℤ → ThreadCall → Prop where
  | noThread {count : ℤ} {c : ThreadCall} {text : String} {reply : Reply} (hpc : c.wait = .starting)
      (h : errorReply o.redact c.cid (builtin "RuntimeError" text) = .ok reply) :
      WaitStep count c count { c with wait := .sending reply }
  | starts {count : ℤ} {c : ThreadCall} (hpc : c.wait = .starting) :
      WaitStep count c count { c with wait := .waiting, work := .ready }
  | wakes {count : ℤ} {c : ThreadCall} (hpc : c.wait = .waiting) (h : c.ended = true) :
      WaitStep count c count { c with wait := .looking }
  | timesOut {count : ℤ} {c : ThreadCall} (hpc : c.wait = .waiting) :
      WaitStep count c count { c with wait := .looking }
  | finds {count : ℤ} {c : ThreadCall} {reply : Reply} {rest : List Reply} (hpc : c.wait = .looking)
      (h : c.box = reply :: rest) : WaitStep count c count { c with wait := .sending reply }
  | findsNothing {count : ℤ} {c : ThreadCall} (hpc : c.wait = .looking) (h : c.box = []) :
      WaitStep count c count { c with wait := .givingUp }
  | hadEnded {count : ℤ} {c : ThreadCall} (hpc : c.wait = .givingUp)
      (h : (c.call.abandon count).1 = none) : WaitStep count c count { c with wait := .taking }
  | abandons {count n : ℤ} {c : ThreadCall} (hpc : c.wait = .givingUp)
      (h : (c.call.abandon count).1 = some n) :
      WaitStep count c (c.call.abandon count).2.1
        { c with call := (c.call.abandon count).2.2, wait := .sending (timeoutReply c.cid),
                 gaveUp := some c.call }
  | takes {count : ℤ} {c : ThreadCall} {reply : Reply} {rest : List Reply} (hpc : c.wait = .taking)
      (h : c.box = reply :: rest) : WaitStep count c count { c with wait := .sending reply }
  | crashes {count : ℤ} {c : ThreadCall} (hpc : c.wait = .taking) (h : c.box = []) :
      WaitStep count c count { c with wait := .crashed }
  | sends {count : ℤ} {c : ThreadCall} {reply : Reply} (hpc : c.wait = .sending reply) :
      WaitStep count c count
        { c with sent := c.sent ++ [reply], pauseEnds := c.pauseEnds + 1, wait := .finished }

end

/-! ## Asynchronous calls -/

/-- Where the handler's task is: its end is noted by a callback. -/
inductive TaskPc where
  | running
  | done
  | noted
  deriving Repr, DecidableEq

/-- Where `_call_with_deadline` is. -/
inductive DeadlinePc where
  | waiting
  | grace
  | finished
  deriving Repr, DecidableEq

/-- **An asynchronous call.** -/
structure TaskCall where
  call : TimedCall
  task : TaskPc
  wait : DeadlinePc
  deriving Repr, DecidableEq

def TaskCall.new : TaskCall := ⟨⟨true, false, false⟩, .running, .waiting⟩

/-- One step of the task or of the coroutine that waits for it. -/
inductive TaskStep : ℤ → TaskCall → ℤ → TaskCall → Prop where
  | ends {count : ℤ} {c : TaskCall} (hpc : c.task = .running) :
      TaskStep count c count { c with task := .done }
  | notes {count : ℤ} {c : TaskCall} (hpc : c.task = .done) :
      TaskStep count c (c.call.finish count).1
        { c with call := (c.call.finish count).2, task := .noted }
  | inTime {count : ℤ} {c : TaskCall} (hpc : c.wait = .waiting) (h : c.task ≠ .running) :
      TaskStep count c count { c with wait := .finished }
  | expires {count : ℤ} {c : TaskCall} (hpc : c.wait = .waiting) (h : c.task = .running) :
      TaskStep count c count { c with wait := .grace }
  | stopped {count : ℤ} {c : TaskCall} (hpc : c.wait = .grace) (h : c.task ≠ .running) :
      TaskStep count c count { c with wait := .finished }
  | abandons {count : ℤ} {c : TaskCall} (hpc : c.wait = .grace) (h : c.task = .running) :
      TaskStep count c (c.call.abandon count).2.1
        { c with call := (c.call.abandon count).2.2, wait := .finished }
  | cancelled {count : ℤ} {c : TaskCall} (hpc : c.wait ≠ .finished) :
      TaskStep count c count { c with wait := .finished }

/-! ## The session's calls -/

/-- A call of either kind. -/
inductive AnyCall where
  | thread (c : ThreadCall)
  | task (c : TaskCall)

/-- The flags of a call. -/
def AnyCall.flags : AnyCall → TimedCall
  | .thread c => c.call
  | .task c => c.call

/-- One step of some thread, task or coroutine. -/
inductive CallStep (o : Options) : ℤ → AnyCall → ℤ → AnyCall → Prop where
  | work {count count' : ℤ} {c c' : ThreadCall} (h : WorkStep o count c count' c') :
      CallStep o count (.thread c) count' (.thread c')
  | wait {count count' : ℤ} {c c' : ThreadCall} (h : WaitStep o count c count' c') :
      CallStep o count (.thread c) count' (.thread c')
  | task {count count' : ℤ} {c c' : TaskCall} (h : TaskStep count c count' c') :
      CallStep o count (.task c) count' (.task c')

/-- The calls the worker may make: `allowed` are the behaviours of the
session's host functions, and any of them may never end. -/
inductive CallJoin (allowed : Behaviour → Prop) : ℤ → AnyCall → Prop where
  | thread {count : ℤ} (cid : ℤ) {b : Behaviour} (h : allowed b) :
      CallJoin allowed count (.thread (.new cid (some b)))
  | endless {count : ℤ} (cid : ℤ) : CallJoin allowed count (.thread (.new cid none))
  | task {count : ℤ} : CallJoin allowed count (.task .new)

/-- The states of the session's calls, over every interleaving. -/
def CallsReachable (o : Options) (allowed : Behaviour → Prop) : Interleaving.Sys ℤ AnyCall → Prop :=
  Interleaving.Reachable (CallStep o) (CallJoin allowed) (fun _ _ => False) 0

end Pydeno.Isolated
