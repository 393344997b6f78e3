import Pydeno.Lib.Interleaving
import Pydeno.Runtime.Model.Dispatcher
/-!
# The termination controller

`TerminationController`, with any number of calls on it at a time. The status is
an atomic cell; the reason is behind a lock. `request_with_reason` and
`clear_handled_reason` hold the lock while they access the status, and other
calls access the status in between; a call that only accesses the reason is one
step with the lock free.

`granted` are the reasons with which `request_with_reason` has returned true, and
`reads` what every `reason` has returned, with what was granted when it was
called.
-/

namespace Pydeno.Runtime.Termination

open Dispatch (Status)

abbrev Text := List ℕ

/-- A call of `reason` that has returned. -/
structure Read where
  before : List Text
  value : Option Text
  deriving DecidableEq

/-- **The controller.** -/
structure Controller where
  status : Status
  reason : Option Text
  locked : Bool
  granted : List Text
  reads : List Read
  deriving DecidableEq

def Controller.new : Controller := ⟨.running, none, false, [], []⟩

/-- **A call**, and how far it is. -/
inductive Call where
  | request
  | requestWithReason (reason : Text)
  /-- It holds the lock, -/
  | requesting (reason : Text)
  /-- and was the first to request, or not. -/
  | requested (reason : Text) (first : Bool)
  | ensureReason (reason : Text)
  | clearHandledReason
  /-- It holds the lock, -/
  | clearing
  /-- and has seen a request, or not. -/
  | cleared (isRequested : Bool)
  | reason (before : List Text)
  | markTerminated
  | ended
  deriving DecidableEq

/-- `compare_exchange` from running to requested. -/
def Controller.exchange (s : Controller) : Controller × Bool :=
  if s.status = .running then ({ s with status := .requested }, true) else (s, false)

/-- `is_requested`. -/
def Controller.isRequested (s : Controller) : Bool := s.status ≠ .running

/-- **One step of a call.** -/
inductive Act : Controller → Call → Controller → Call → Prop where
  | requests {s : Controller} : Act s .request s.exchange.1 .ended
  | locksRequest {s : Controller} {r : Text} (hfree : s.locked = false) :
      Act s (.requestWithReason r) { s with locked := true } (.requesting r)
  | exchanges {s : Controller} {r : Text} :
      Act s (.requesting r) s.exchange.1 (.requested r s.exchange.2)
  /-- The first request writes its reason. The lock is freed, and the call returns true. -/
  | grants {s : Controller} {r : Text} :
      Act s (.requested r true)
        { s with reason := some r, locked := false, granted := s.granted ++ [r] } .ended
  | repeats {s : Controller} {r : Text} :
      Act s (.requested r false) { s with locked := false } .ended
  | ensures {s : Controller} {r : Text} (hfree : s.locked = false) :
      Act s (.ensureReason r) { s with reason := s.reason.or (some r) } .ended
  | locksClear {s : Controller} (hfree : s.locked = false) :
      Act s .clearHandledReason { s with locked := true } .clearing
  | checks {s : Controller} : Act s .clearing s (.cleared s.isRequested)
  | clears {s : Controller} {isRequested : Bool} :
      Act s (.cleared isRequested)
        { s with reason := if isRequested then s.reason else none, locked := false } .ended
  | reads {s : Controller} {before : List Text} (hfree : s.locked = false) :
      Act s (.reason before) { s with reads := s.reads ++ [⟨before, s.reason⟩] } .ended
  | marks {s : Controller} : Act s .markTerminated { s with status := .terminated } .ended

/-- **A call is made**, by any thread and at any time. -/
inductive Join : Controller → Call → Prop where
  | request {s : Controller} : Join s .request
  | requestWithReason {s : Controller} (r : Text) : Join s (.requestWithReason r)
  | ensureReason {s : Controller} (r : Text) : Join s (.ensureReason r)
  | clearHandledReason {s : Controller} : Join s .clearHandledReason
  | reason {s : Controller} : Join s (.reason s.granted)
  | markTerminated {s : Controller} : Join s .markTerminated

/-- The systems that the calls on a new controller lead to. -/
def Reachable : Interleaving.Sys Controller Call → Prop :=
  Interleaving.Reachable Act Join (fun _ _ => False) .new

/-- Any number of further steps. -/
def Run : Interleaving.Sys Controller Call → Interleaving.Sys Controller Call → Prop :=
  Relation.ReflTransGen (Interleaving.Move Act Join fun _ _ => False)

end Pydeno.Runtime.Termination
