import Pydeno.Lib.Interleaving
/-!
# The deadline watchdog

`Watchdog` of `termination.rs`: the thread's loop, `arm`, `disarm` and `Drop`,
with `resolve_watchdog` of `core.rs`, over every interleaving of the calls and
the thread. Instants and durations are numbers of one unit.

The calls' sections under the lock are one step each. The thread's section is
several, with `lock` held from the first to the wait that releases it, since it
terminates execution in between. A wait ends at any time: on a notification, on
its time-out, or for no reason.

`terminations` are the terminations that were issued, each with the ids of the
entries that had fired when the loop looked; `returned` are the ids of the
tokens that `arm` has given, `disarmed` those that `disarm` was called with.
-/

namespace Pydeno.Runtime.Watchdog

/-- `ArmedDeadline`. -/
structure Entry where
  id : ℕ
  deadline : ℕ
  reason : List ℕ
  fired : Bool
  deriving DecidableEq

/-- **`Parked`.** -/
inductive Parked where
  | busy
  | forever
  | until (instant : ℕ)
  deriving DecidableEq

/-- **Where the thread is in its loop.** -/
inductive Place where
  | top
  | locked
  /-- It has marked what has expired; `cause` are the entries that have fired. -/
  | marked (now : ℕ) (anyFired : Bool) (cause : List ℕ)
  | issued (now : ℕ) (outstanding : Bool)
  /-- It waits, -/
  | waiting
  /-- or was woken and has not come by the lock. -/
  | woken
  | exited
  deriving DecidableEq

/-- **The watchdog**, with the clock, the controller's reason and V8's pending
termination. -/
structure Dog where
  lock : Bool
  entries : List Entry
  parked : Parked
  shutdown : Bool
  nextId : ℕ
  thread : Place
  lastTerminate : Option ℕ
  clock : ℕ
  reason : Option (List ℕ)
  requested : Bool
  pending : Bool
  terminations : List (List ℕ)
  returned : List ℕ
  disarmed : List ℕ

/-- `Watchdog::spawn`. -/
def Dog.spawn (clock : ℕ) : Dog where
  lock := false
  entries := []
  parked := .busy
  shutdown := false
  nextId := 0
  thread := .top
  lastTerminate := none
  clock := clock
  reason := none
  requested := false
  pending := false
  terminations := []
  returned := []
  disarmed := []

/-! ## The loop -/

/-- An entry whose deadline has come is marked. -/
def Entry.mark (now : ℕ) (e : Entry) : Entry :=
  if !e.fired && e.deadline ≤ now then { e with fired := true } else e

/-- The ids of the entries that have fired. -/
def firedIds (entries : List Entry) : List ℕ := (entries.filter Entry.fired).map Entry.id

/-- `min_by_key`: the first of the entries with the least deadline. -/
def earliest : List Entry → Option Entry
  | [] => none
  | e :: rest =>
    match earliest rest with
    | some e' => some (if e'.deadline < e.deadline then e' else e)
    | none => some e

/-- `ensure_reason`, with the reason of the entry that expired first. -/
def ensureReason (reason : Option (List ℕ)) (entries : List Entry) : Option (List ℕ) :=
  reason.or ((earliest (entries.filter Entry.fired)).map Entry.reason)

section

variable (reissueInterval : ℕ)

/-- `reissue_due`. -/
def reissueDue (lastTerminate : Option ℕ) (now : ℕ) (outstanding : Bool) : Bool :=
  outstanding && lastTerminate.all fun last => reissueInterval ≤ now - last

/-- `next_deadline`, after the re-issue adjustment. -/
def nextDeadline (entries : List Entry) (now : ℕ) (outstanding : Bool) : Option ℕ :=
  let next := ((entries.filter fun e => !e.fired).map Entry.deadline).min?
  if outstanding then
    some (next.elim (now + reissueInterval) fun d => min d (now + reissueInterval))
  else next

/-- **One step of the thread**, of the clock or of a host that terminates. -/
inductive Loop : Dog → Dog → Prop where
  | locks {s : Dog} (hat : s.thread = .top) (hfree : s.lock = false) :
      Loop s { s with thread := .locked, lock := true }
  | exits {s : Dog} (hat : s.thread = .locked) (hshut : s.shutdown = true) :
      Loop s { s with thread := .exited, lock := false }
  | marks {s : Dog} (hat : s.thread = .locked) (hopen : s.shutdown = false) :
      Loop s
        { s with
          entries := s.entries.map (Entry.mark s.clock)
          thread := .marked s.clock
            (s.entries.any fun e => !e.fired && e.deadline ≤ s.clock)
            (firedIds (s.entries.map (Entry.mark s.clock))) }
  | terminates {s : Dog} {now : ℕ} {anyFired : Bool} {cause : List ℕ}
      (hat : s.thread = .marked now anyFired cause)
      (hdue : (anyFired || reissueDue reissueInterval s.lastTerminate now (!cause.isEmpty)) = true) :
      Loop s
        { s with
          thread := .issued now (!cause.isEmpty)
          reason := if anyFired then ensureReason s.reason s.entries else s.reason
          lastTerminate := some now
          pending := true
          terminations := s.terminations ++ [cause] }
  | passes {s : Dog} {now : ℕ} {anyFired : Bool} {cause : List ℕ}
      (hat : s.thread = .marked now anyFired cause)
      (hdue : (anyFired || reissueDue reissueInterval s.lastTerminate now (!cause.isEmpty)) = false) :
      Loop s { s with thread := .issued now (!cause.isEmpty) }
  | parks {s : Dog} {now : ℕ} {outstanding : Bool} (hat : s.thread = .issued now outstanding) :
      Loop s
        { s with
          thread := .waiting
          parked := (nextDeadline reissueInterval s.entries now outstanding).elim .forever .until
          lock := false }
  /-- The wait times out, or ends for no reason. -/
  | wakes {s : Dog} (hat : s.thread = .waiting) : Loop s { s with thread := .woken }
  | resumes {s : Dog} (hat : s.thread = .woken) (hfree : s.lock = false) :
      Loop s { s with thread := .top, parked := .busy }
  | ticks {s : Dog} (elapsed : ℕ) : Loop s { s with clock := s.clock + elapsed }
  /-- `request_with_reason` and `terminate_execution` of a host. -/
  | requests {s : Dog} (reason : List ℕ) :
      Loop s
        { s with
          requested := true, pending := true
          reason := if s.requested then s.reason else some reason }

end

/-! ## Calls -/

/-- Whether a thread that is parked so has to be woken for a deadline. -/
def Parked.wakes (deadline : ℕ) : Parked → Bool
  | .busy => false
  | .forever => true
  | .until instant => deadline < instant

/-- `notify_one`. -/
def Dog.notifyOne (s : Dog) : Dog :=
  if s.thread = .waiting then { s with thread := .woken } else s

/-- `Vec::swap_remove`: the last element takes the place of the one removed. -/
def swapRemove (l : List Entry) (i : ℕ) : List Entry :=
  match l.getLast? with
  | some last => (l.set i last).dropLast
  | none => l

/-- **The section of `disarm`**, and whether the entry had fired. -/
def Dog.disarm (s : Dog) (id : ℕ) : Dog × Bool :=
  match s.entries.findIdx? fun e => e.id = id with
  | some i =>
    ({ s with entries := swapRemove s.entries i, disarmed := s.disarmed ++ [id] },
      (s.entries[i]?).any Entry.fired)
  | none => ({ s with disarmed := s.disarmed ++ [id] }, false)

/-- **Where a call is.** -/
inductive Call where
  /-- `arm` is called, -/
  | arms (duration : ℕ) (reason : List ℕ)
  /-- has its id, -/
  | numbered (id duration : ℕ) (reason : List ℕ)
  /-- and its deadline; -/
  | timed (id deadline : ℕ) (reason : List ℕ)
  /-- the entry is in, and the thread is to be woken. -/
  | notifies (id : ℕ)
  | disarms (id : ℕ)
  /-- The entry had fired, and the termination is to be cancelled. -/
  | cancels
  | drops
  | shuts
  | ended
  deriving DecidableEq

/-- **One step of a call.** -/
inductive Step : Dog → Call → Dog → Call → Prop where
  | numbers {s : Dog} {duration : ℕ} {reason : List ℕ} :
      Step s (.arms duration reason) { s with nextId := s.nextId + 1 }
        (.numbered s.nextId duration reason)
  | times {s : Dog} {id duration : ℕ} {reason : List ℕ} :
      Step s (.numbered id duration reason) s (.timed id (s.clock + duration) reason)
  | pushesAndWakes {s : Dog} {id deadline : ℕ} {reason : List ℕ} (hfree : s.lock = false)
      (hwake : s.parked.wakes deadline = true) :
      Step s (.timed id deadline reason)
        { s with entries := s.entries ++ [⟨id, deadline, reason, false⟩] } (.notifies id)
  | pushes {s : Dog} {id deadline : ℕ} {reason : List ℕ} (hfree : s.lock = false)
      (hwake : s.parked.wakes deadline = false) :
      Step s (.timed id deadline reason)
        { s with
          entries := s.entries ++ [⟨id, deadline, reason, false⟩]
          returned := s.returned ++ [id] } .ended
  | notifies {s : Dog} {id : ℕ} :
      Step s (.notifies id) { s.notifyOne with returned := s.returned ++ [id] } .ended
  | disarms {s : Dog} {id : ℕ} (hfree : s.lock = false) (htoken : id ∈ s.returned) :
      Step s (.disarms id) (s.disarm id).1 (if (s.disarm id).2 then .cancels else .ended)
  /-- `cancel_pending_termination`. -/
  | cancels {s : Dog} :
      Step s .cancels
        { s with pending := false, reason := if s.requested then s.reason else none } .ended
  | drops {s : Dog} (hfree : s.lock = false) : Step s .drops { s with shutdown := true } .shuts
  | shuts {s : Dog} : Step s .shuts s.notifyOne .ended

/-- Calls come at any time. -/
inductive Join : Dog → Call → Prop where
  | arm {s : Dog} (duration : ℕ) (reason : List ℕ) : Join s (.arms duration reason)
  | disarm {s : Dog} (id : ℕ) : Join s (.disarms id)
  | drop {s : Dog} : Join s .drops

/-- One step of the system. -/
def Move (reissueInterval : ℕ) : Interleaving.Sys Dog Call → Interleaving.Sys Dog Call → Prop :=
  Interleaving.Move Step Join (Loop reissueInterval)

/-- The states of a watchdog, over every interleaving. -/
def Reachable (reissueInterval clock : ℕ) : Interleaving.Sys Dog Call → Prop :=
  Interleaving.Reachable Step Join (Loop reissueInterval) (.spawn clock)

end Pydeno.Runtime.Watchdog
