import Mathlib
/-!
# The dispatcher and a host that terminates it

`RuntimeDispatcher::run` with its commands, `RuntimeHandle::terminate` and
`close`, and the other ways a termination is requested, over every
interleaving. A job is named by the number of its command. A step of the
dispatcher is one stage of its loop; commands may be sent at any time, and a
job's watchdog may fire at any time.

`fired` are the jobs whose own deadline has passed, `completed` those that came
to an outcome of their own. A job in `admitted` was accepted by `admit`.
-/

namespace Pydeno.Runtime.Dispatch

/-- The status of the `TerminationController`. -/
inductive Status where
  | running
  | requested
  | terminated
  deriving DecidableEq, Repr

/-- `RuntimeCommand`: an asynchronous job, a command that runs at once, and the
two that end the loop. -/
inductive Command where
  | job (id : ℕ)
  | sync (id : ℕ)
  | terminate
  | shutdown
  deriving DecidableEq, Repr

/-- What a command is answered with. -/
inductive Answer where
  /-- Its own outcome. -/
  | result
  /-- The error of `admit`. -/
  | refused
  | timedOut
  /-- `terminated_error`. -/
  | terminated
  deriving DecidableEq, Repr

/-- **Where the dispatcher is in its loop.** -/
inductive Place where
  /-- Before the event loop is driven, -/
  | polls
  /-- before the active job is polled, -/
  | checks
  /-- before the termination flag is read, -/
  | flags
  /-- and before the wait. -/
  | parks
  /-- A job is admitted and not yet submitted. -/
  | admits (id : ℕ)
  /-- A command runs. -/
  | runs (id : ℕ)
  | exited
  deriving DecidableEq, Repr

/-- How `terminate` returns. -/
inductive Result where
  | ok
  /-- `Failed to send terminate command`. -/
  | sendFailed
  /-- `Failed to receive terminate confirmation result`. -/
  | receiveFailed
  | forceKilled
  deriving DecidableEq, Repr

/-- **Where the host is.** -/
inductive Host where
  | idle
  /-- In `terminate`: before the request, -/
  | terminates
  /-- before the command, -/
  | requested
  /-- and in `recv_result`. -/
  | awaits
  /-- Someone else has requested the termination. -/
  | waits
  | returned (result : Result)
  /-- In `close`, before the command. -/
  | closing
  | closed
  deriving DecidableEq, Repr

/-- **The runtime.** -/
structure Rt where
  status : Status
  channel : List Command
  receiving : Bool
  place : Place
  active : Option ℕ
  pending : List ℕ
  justActivated : Bool
  admitted : List ℕ
  completed : List ℕ
  answers : List (ℕ × Answer)
  fired : List ℕ
  nextCommand : ℕ
  replied : Bool
  shut : Bool
  host : Host
  deriving DecidableEq

/-- A runtime that was just spawned. -/
def Rt.spawn : Rt where
  status := .running
  channel := []
  receiving := true
  place := .polls
  active := none
  pending := []
  justActivated := false
  admitted := []
  completed := []
  answers := []
  fired := []
  nextCommand := 0
  replied := false
  shut := false
  host := .idle

namespace Rt

/-! ## Jobs -/

/-- `apply_watchdog_result`: a job whose deadline has passed is answered with
that. -/
def finish (s : Rt) (id : ℕ) (answer : Answer) : ℕ × Answer :=
  (id, if id ∈ s.fired then .timedOut else answer)

/-- `has_work`. -/
def hasWork (s : Rt) : Bool := s.active.isSome || !s.pending.isEmpty

/-- `should_reject_new_work`. -/
def shouldRejectNewWork (s : Rt) : Bool := s.status ≠ .running

/-- **`complete_active_job`**, of the job `id` that is active. -/
def completeActiveJob (s : Rt) (id : ℕ) : Rt :=
  { s with
    answers := s.answers ++ [s.finish id .result]
    completed := s.completed ++ [id]
    active := s.pending.head?
    pending := s.pending.tail
    justActivated := s.justActivated || !s.pending.isEmpty }

/-- **`submit_job`.** -/
def submitJob (s : Rt) (id : ℕ) : Rt :=
  if s.active.isNone then { s with active := some id, justActivated := true }
  else { s with pending := s.pending ++ [id] }

/-- **`cancel_all_jobs`.** -/
def cancelAllJobs (s : Rt) : Rt :=
  { s with
    answers := s.answers ++ (s.active.toList ++ s.pending).map fun id => s.finish id .terminated
    active := none
    pending := [] }

/-- `finalize_termination`. -/
def finalizeTermination (s : Rt) : Rt := { s with status := .terminated }

/-- The loop is left, and the receiver dropped with what it holds. -/
def leave (s : Rt) : Rt := { s with place := .exited, receiving := false }

end Rt

/-! ## Steps -/

/-- **One step of the dispatcher.** -/
inductive Loop : Rt → Rt → Prop where
  /-- The event loop fails under the active job; the loop starts again. -/
  | pollFails {s : Rt} {id : ℕ} (hat : s.place = .polls) (hactive : s.active = some id) :
      Loop s (s.completeActiveJob id)
  | polled {s : Rt} (hat : s.place = .polls) : Loop s { s with place := .checks }
  | jobReady {s : Rt} {id : ℕ} (hat : s.place = .checks) (hactive : s.active = some id) :
      Loop s { s.completeActiveJob id with place := .flags }
  /-- There is no active job, or it is not ready. -/
  | jobPending {s : Rt} (hat : s.place = .checks) : Loop s { s with place := .flags }
  | aborts {s : Rt} (hat : s.place = .flags)
      (hflag : (s.shouldRejectNewWork && s.hasWork) = true) :
      Loop s s.cancelAllJobs.finalizeTermination.leave
  | passes {s : Rt} (hat : s.place = .flags)
      (hflag : (s.shouldRejectNewWork && s.hasWork) = false) : Loop s { s with place := .parks }
  | again {s : Rt} (hat : s.place = .parks) (hjust : s.justActivated = true) :
      Loop s { s with place := .polls, justActivated := false }
  /-- A notification, or the tick. -/
  | wakes {s : Rt} (hat : s.place = .parks) (hjust : s.justActivated = false) :
      Loop s { s with place := .polls }
  | admits {s : Rt} {id : ℕ} {rest : List Command} (hat : s.place = .parks)
      (hjust : s.justActivated = false) (hchannel : s.channel = .job id :: rest)
      (hallow : s.shouldRejectNewWork = false) :
      Loop s { s with channel := rest, place := .admits id, admitted := s.admitted ++ [id] }
  | runs {s : Rt} {id : ℕ} {rest : List Command} (hat : s.place = .parks)
      (hjust : s.justActivated = false) (hchannel : s.channel = .sync id :: rest)
      (hallow : s.shouldRejectNewWork = false) :
      Loop s { s with channel := rest, place := .runs id, admitted := s.admitted ++ [id] }
  /-- The runtime is terminating, or the inspector is not ready. -/
  | refuses {s : Rt} {id : ℕ} {rest : List Command} (hat : s.place = .parks)
      (hjust : s.justActivated = false)
      (hchannel : s.channel = .job id :: rest ∨ s.channel = .sync id :: rest) :
      Loop s
        { s with channel := rest, place := .polls, answers := s.answers ++ [(id, .refused)] }
  | submits {s : Rt} {id : ℕ} (hat : s.place = .admits id) :
      Loop s { s.submitJob id with place := .polls }
  /-- `take_pending_call` fails. -/
  | resumeFails {s : Rt} {id : ℕ} (hat : s.place = .admits id) :
      Loop s
        { s with
          place := .polls
          answers := s.answers ++ [(id, .result)]
          completed := s.completed ++ [id] }
  /-- A command that ran is answered. -/
  | ran {s : Rt} {id : ℕ} (hat : s.place = .runs id) :
      Loop s
        { s with
          place := .polls
          answers := s.answers ++ [s.finish id .result]
          completed := s.completed ++ [id] }
  | terminates {s : Rt} {rest : List Command} (hat : s.place = .parks)
      (hjust : s.justActivated = false) (hchannel : s.channel = .terminate :: rest) :
      Loop s
        { s.cancelAllJobs.finalizeTermination.leave with channel := rest, replied := true }
  | shutsDown {s : Rt} {rest : List Command} (hat : s.place = .parks)
      (hjust : s.justActivated = false) (hchannel : s.channel = .shutdown :: rest) :
      Loop s { s.leave with channel := rest, shut := true }
  /-- `handle_channel_closed`. -/
  | channelClosed {s : Rt} (hat : s.place = .parks) (hjust : s.justActivated = false)
      (hchannel : s.channel = []) (hclosed : s.host = .closed) :
      Loop s s.cancelAllJobs.finalizeTermination.leave

section

/-! `grace` says that `force_kill_grace` is set. -/
variable (grace : Bool)

/-- **One step of the host.** -/
inductive HostStep : Rt → Rt → Prop where
  | calls {s : Rt} (hat : s.host = .idle) : HostStep s { s with host := .terminates }
  | terminatedBefore {s : Rt} (hat : s.host = .terminates) (hstatus : s.status = .terminated) :
      HostStep s { s with host := .returned .ok }
  | requests {s : Rt} (hat : s.host = .terminates) (hstatus : s.status = .running) :
      HostStep s { s with status := .requested, host := .requested }
  | loses {s : Rt} (hat : s.host = .terminates) (hstatus : s.status ≠ .running) :
      HostStep s { s with host := .waits }
  | sends {s : Rt} (hat : s.host = .requested) (hopen : s.receiving = true) :
      HostStep s { s with channel := s.channel ++ [.terminate], host := .awaits }
  | sendFails {s : Rt} (hat : s.host = .requested) (hopen : s.receiving = false) :
      HostStep s { s with host := .returned .sendFailed }
  | receives {s : Rt} (hat : s.host = .awaits) (hreplied : s.replied = true) :
      HostStep s { s with host := .returned .ok }
  /-- The responder was dropped with the channel. -/
  | disconnected {s : Rt} (hat : s.host = .awaits) (hreplied : s.replied = false)
      (hexited : s.place = .exited) : HostStep s { s with host := .returned .receiveFailed }
  | waited {s : Rt} (hat : s.host = .waits) (hstatus : s.status = .terminated) :
      HostStep s { s with host := .returned .ok }
  | forceKills {s : Rt} (hgrace : grace = true) (hat : s.host = .awaits ∨ s.host = .waits) :
      HostStep s { s with status := .terminated, host := .returned .forceKilled }
  /-- `close` of a runtime whose termination was requested. -/
  | closesRequested {s : Rt} (hat : s.host = .idle) (hstatus : s.status ≠ .running) :
      HostStep s { s with host := .closed }
  | closes {s : Rt} (hat : s.host = .idle) (hstatus : s.status = .running) :
      HostStep s { s with host := .closing }
  | sendsShutdown {s : Rt} (hat : s.host = .closing) (hopen : s.receiving = true) :
      HostStep s { s with channel := s.channel ++ [.shutdown], host := .closed }
  | shutdownFails {s : Rt} (hat : s.host = .closing) (hopen : s.receiving = false) :
      HostStep s { s with host := .closed }

/-- **What others do**: send commands, request a termination (a
`TerminationHandle`, or the heap limit), or let a deadline pass. -/
inductive Others : Rt → Rt → Prop where
  | sendsJob {s : Rt} (hopen : s.receiving = true) :
      Others s
        { s with
          channel := s.channel ++ [.job s.nextCommand], nextCommand := s.nextCommand + 1 }
  | sendsSync {s : Rt} (hopen : s.receiving = true) :
      Others s
        { s with
          channel := s.channel ++ [.sync s.nextCommand], nextCommand := s.nextCommand + 1 }
  | requests {s : Rt} (hstatus : s.status = .running) : Others s { s with status := .requested }
  | fires {s : Rt} (id : ℕ) : Others s { s with fired := s.fired ++ [id] }

/-- One step. -/
inductive Step : Rt → Rt → Prop where
  | loop {s s' : Rt} (h : Loop s s') : Step s s'
  | host {s s' : Rt} (h : HostStep grace s s') : Step s s'
  | others {s s' : Rt} (h : Others s s') : Step s s'

/-- The states that a run leads to. -/
def Run : Rt → Rt → Prop := Relation.ReflTransGen (Step grace)

/-- The states of a runtime. -/
def Reachable : Rt → Prop := Run grace .spawn

end

end Pydeno.Runtime.Dispatch
