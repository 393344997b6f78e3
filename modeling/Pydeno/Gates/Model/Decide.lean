import Pydeno.Wire.Model.Python
/-!
# Gates

How `_gate.py` decides: `_accept`, `_decide` and `_adecide` for any gate,
`_Fold` with `_SyncCombined` and `_AsyncCombined` for `all_of` and `any_of`, and
the hook in front of an entry point. Text is a list of code points.

A leaf is a gate of the host; what is modelled of it is its answer to the one
call a check makes of it. A check also gives the leaves it has called, in
order. A coroutine calls a plain gate on a thread and waits for it through
`asyncio.wrap_future`, which does not carry every exception (`Answer.onThread`).
-/

namespace Pydeno.Gates

open Wire (ascii)

abbrev Text := List ℕ

/-! ## Answers and outcomes -/

/-- `Verdict`, with the fields that its constructor demands. -/
structure Verdict where
  allow : Bool
  reason : Text
  labels : List Text
  deriving Repr, DecidableEq

/-- **What a call of a gate comes to.** `awaitable` is an object that can be
awaited, and what comes of that. -/
inductive Answer where
  | verdict (v : Verdict)
  /-- A `Verdict` whose fields were changed to what its constructor refuses. -/
  | malformed
  | other (typeName : Text)
  /-- `GateDenied` is raised, -/
  | denied (reason : Text) (labels : List Text)
  /-- or `GateUnavailable`, -/
  | unavailable (reason : Text)
  /-- or `concurrent.futures.CancelledError`, -/
  | futureCancelled
  /-- or `StopIteration`, -/
  | stopIteration
  /-- or another `Exception`, -/
  | raises (typeName : Text)
  /-- or a `BaseException` that is none. -/
  | interrupts (typeName : Text)
  /-- The call does not end. -/
  | never
  | awaitable (typeName : Text) (answer : Answer)
  deriving Repr, DecidableEq

/-- **The outcome of a check**: an allowing `Verdict`, or `GateDenied`, or
`GateUnavailable`; or a `BaseException` goes through, or the check does not end. -/
inductive Outcome where
  | allowed (reason : Text) (labels : List Text)
  | denied (reason : Text) (labels : List Text)
  | unavailable (reason : Text)
  | interrupted (typeName : Text)
  | never
  deriving Repr, DecidableEq

/-- What leaves a coroutine: Python turns a `StopIteration` into another
exception. -/
def Answer.inCoroutine : Answer → Answer
  | .stopIteration => .raises (ascii "RuntimeError")
  | answer => answer

/-- **What `asyncio.wrap_future` brings of a call on a thread.** The cancellation of
a `concurrent.futures` future becomes asyncio's own, which is no `Exception`;
an asyncio future refuses a `StopIteration`, and is never done. -/
def Answer.onThread : Answer → Answer
  | .futureCancelled => .interrupts (ascii "CancelledError")
  | .stopIteration => .never
  | answer => answer

/-! ## Deciding -/

def malformedReason : Text := ascii "the gate returned a malformed Verdict"

def notVerdict (typeName : Text) : Text :=
  ascii "the gate returned " ++ typeName ++ ascii ", not a Verdict"

/-- `_raised`. -/
def raised (typeName : Text) : Text := ascii "the gate raised " ++ typeName

/-- `_late`. -/
def late (timeout : Text) : Text :=
  ascii "the gate took longer than gate_timeout=" ++ timeout ++ ascii "s"

def awaitableReason : Text :=
  ascii ("the gate returned an awaitable, which a synchronous entry point cannot await; "
    ++ "use the async API or a sync gate")

/-- `_accept`, and what was raised before it. -/
def accept : Answer → Outcome
  | .verdict v => if v.allow then .allowed v.reason v.labels else .denied v.reason v.labels
  | .malformed => .unavailable malformedReason
  | .other typeName => .unavailable (notVerdict typeName)
  | .awaitable typeName _ => .unavailable (notVerdict typeName)
  | .denied reason labels => .denied reason labels
  | .unavailable reason => .unavailable reason
  | .futureCancelled => .unavailable (raised (ascii "CancelledError"))
  | .stopIteration => .unavailable (raised (ascii "StopIteration"))
  | .raises typeName => .unavailable (raised typeName)
  | .interrupts typeName => .interrupted typeName
  | .never => .never

/-- The answer came, and without an exception. -/
def Answer.returned : Answer → Bool
  | .verdict _ => true
  | .malformed => true
  | .other _ => true
  | .awaitable _ _ => true
  | _ => false

/-- **`_decide`**, on the gate's answer. `passed` is the timeout, if it has
passed by then. -/
def decide (passed : Option Text) (answer : Answer) : Outcome :=
  match answer with
  | .awaitable _ _ => .unavailable awaitableReason
  | _ =>
    match passed with
    | some timeout => if answer.returned then .unavailable (late timeout) else accept answer
    | none => accept answer

/-- **`_adecide`**, on the gate's answer, which is awaited once. -/
def adecide (passed : Option Text) (answer : Answer) : Outcome :=
  let answer := match answer with
    | .awaitable _ answer => answer
    | answer => answer
  match passed with
  | some timeout =>
    match answer with
    | .futureCancelled | .stopIteration | .raises _ | .never => .unavailable (late timeout)
    | _ => if answer.returned then .unavailable (late timeout) else accept answer
  | none => accept answer

/-! ## `all_of` and `any_of` -/

inductive Kind where
  | allOf
  | anyOf
  deriving Repr, DecidableEq

/-- **`_Fold`.** -/
structure Fold where
  kind : Kind
  allowed : List (Text × List Text)
  denied : List (Text × List Text)
  unavailable : Option Text
  deriving Repr, DecidableEq

def Fold.new (kind : Kind) : Fold := ⟨kind, [], [], none⟩

/-- `_merge`. -/
def merge (groups : List (List Text)) : List Text := groups.flatten.eraseDups

/-- `sep.join(r for r in reasons if r)`. -/
def joinReasons (sep : Text) (reasons : List Text) : Text :=
  sep.intercalate (reasons.filter (· ≠ []))

/-- **`_Fold.add`**: the combined answer once it is decided, or the fold to go
on with. A `BaseException` never gets here; it has ended the combined gate, which
does not end if one of its gates does not. -/
def Fold.add (fold : Fold) : Outcome → Answer ⊕ Fold
  | .unavailable reason =>
    match fold.kind with
    | .allOf => .inl (.unavailable reason)
    | .anyOf => .inr { fold with unavailable := fold.unavailable.orElse fun _ => some reason }
  | .denied reason labels =>
    match fold.kind with
    | .allOf =>
      .inl (.verdict ⟨false, reason, merge (labels :: fold.allowed.map Prod.snd)⟩)
    | .anyOf => .inr { fold with denied := fold.denied ++ [(reason, labels)] }
  | .allowed reason labels =>
    match fold.kind with
    | .anyOf => .inl (.verdict ⟨true, reason, labels⟩)
    | .allOf => .inr { fold with allowed := fold.allowed ++ [(reason, labels)] }
  | .interrupted typeName => .inl (.interrupts typeName)
  | .never => .inl .never

/-- **`_Fold.end`.** -/
def Fold.«end» (fold : Fold) : Answer :=
  match fold.kind with
  | .allOf =>
    .verdict ⟨true, joinReasons (ascii "; ") (fold.allowed.map Prod.fst),
      merge (fold.allowed.map Prod.snd)⟩
  | .anyOf =>
    match fold.unavailable with
    | some reason => .unavailable reason
    | none =>
      .verdict ⟨false, joinReasons (ascii "\n") (fold.denied.map Prod.fst),
        merge (fold.denied.map Prod.snd)⟩

/-- **A gate**: a leaf, which is a coroutine function or not, or a
combination. -/
inductive Gate (ι : Type) where
  | leaf (name : ι) (isAsync : Bool) (answer : Answer)
  | combined (kind : Kind) (gates : List (Gate ι))

variable {ι : Type}

mutual

/-- `_is_async_gate`: a combination is async if one of its gates is. -/
def Gate.isAsync : Gate ι → Bool
  | .leaf _ isAsync _ => isAsync
  | .combined _ gates => anyAsync gates

def Gate.anyAsync : List (Gate ι) → Bool
  | [] => false
  | g :: rest => g.isAsync || Gate.anyAsync rest

end

/-- The coroutine that a call of an async gate gives. -/
def coroutine (answer : Answer) : Answer := .awaitable (ascii "coroutine") answer.inCoroutine

/-- What a leaf answers when it is called. -/
def leafAnswer (isAsync : Bool) (answer : Answer) : Answer :=
  if isAsync then coroutine answer else answer

mutual

/-- **A synchronous call**, as `_decide` makes it: the leaves called, and the
answer. The coroutine of an async combination is not run. -/
def Gate.call : Gate ι → List ι × Answer
  | .leaf name isAsync answer => ([name], leafAnswer isAsync answer)
  | .combined kind gates =>
    if anyAsync gates then ([], coroutine (asyncCombined (.new kind) gates).2)
    else syncCombined (.new kind) gates

/-- **`_SyncCombined.__call__`**, from a gate on. -/
def Gate.syncCombined (fold : Fold) : List (Gate ι) → List ι × Answer
  | [] => ([], fold.end)
  | g :: rest =>
    match fold.add (decide none g.call.2) with
    | .inl answer => (g.call.1, answer)
    | .inr fold =>
      (g.call.1 ++ (Gate.syncCombined fold rest).1, (Gate.syncCombined fold rest).2)

/-- **A call from a coroutine**, as `_adecide` makes it: a sync gate is called
on a thread, and the coroutine of an async one is run. -/
def Gate.acall : Gate ι → List ι × Answer
  | .leaf name isAsync answer => ([name], if isAsync then coroutine answer else answer.onThread)
  | .combined kind gates =>
    if anyAsync gates then
      ((asyncCombined (.new kind) gates).1, coroutine (asyncCombined (.new kind) gates).2)
    else ((syncCombined (.new kind) gates).1, (syncCombined (.new kind) gates).2.onThread)

/-- **`_AsyncCombined.__call__`**, from a gate on. -/
def Gate.asyncCombined (fold : Fold) : List (Gate ι) → List ι × Answer
  | [] => ([], fold.end)
  | g :: rest =>
    match fold.add (adecide none g.acall.2) with
    | .inl answer => (g.acall.1, answer)
    | .inr fold =>
      (g.acall.1 ++ (Gate.asyncCombined fold rest).1, (Gate.asyncCombined fold rest).2)

end

/-! ## Entry points -/

/-- `MAX_GATE_SOURCE_BYTES`. -/
def maxGateSourceBytes : ℕ := 16 * 1024 * 1024

/-- `len(_utf8(source))`; a lone surrogate counts three. -/
def utf8Length (source : Text) : ℕ :=
  (source.map fun c =>
    if c < 0x80 then 1 else if c < 0x800 then 2 else if c < 0x10000 then 3 else 4).sum

/-- `_too_large`. -/
def tooLarge (size : Text) : Outcome :=
  .denied (ascii "the code is " ++ size ++ ascii " bytes, over the limit of "
      ++ ascii (toString maxGateSourceBytes)
      ++ ascii " bytes; send a shorter program")
    [ascii "source-too-large"]

/-- `_prepare`, as far as it can refuse. -/
def prepare (source : Text) : Option Outcome :=
  if maxGateSourceBytes < source.length then
    some (tooLarge (ascii "more than " ++ ascii (toString maxGateSourceBytes)))
  else if maxGateSourceBytes < utf8Length source then
    some (tooLarge (ascii (toString (utf8Length source))))
  else none

end Pydeno.Gates
