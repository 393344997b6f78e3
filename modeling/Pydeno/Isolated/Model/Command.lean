import Pydeno.Isolated.Model.Calls
/-!
# The command loop

`_pump` of `IsolatedRuntime`: it reads the worker's frames until one answers
the command, and supervises meanwhile. Everything the loop reads from outside
(the frame, the clock, the worker's usage, what happens around a host call) is
one `Turn`; the loop runs over a list of turns, so a statement about every list
is one about every worker.
-/

namespace Pydeno.Isolated

open Wire (Bytes ascii Obj getItem)

/-- `_clean`: text of the worker's made safe for a message. `unsafeText` are
the characters of `_CONTROL`. -/
def clean (unsafeText : ℕ → Bool) (text : List ℕ) (limit : ℕ) : List ℕ :=
  (text.map fun c => if unsafeText c then 63 else c).take limit

/-! ## Supervision -/

/-- `_sandbox.usage`: memory, CPU seconds and threads, each `none` if it cannot
be read. -/
structure Usage where
  rss : Option ℕ
  cpu : Option ℚ
  threads : Option ℕ

/-- What one pass of supervision reads: the clock and the usage. -/
structure Look where
  now : ℚ
  usage : Usage

/-- `_MAX_WORKER_THREADS` -/
def MAX_WORKER_THREADS : ℕ := 64

/-- `_check_memory(force=True)` -/
def checkMemory (o : Options) (usage : Usage) : Step (Option ℚ) := fun w =>
  match usage.threads.filter (MAX_WORKER_THREADS < ·) with
  | some threads =>
    (.error (workerCrashed (ascii ("worker started " ++ toString threads ++ " threads (limit " ++
      toString MAX_WORKER_THREADS ++ "); killed"))), w.kill)
  | none =>
    match o.maxMemory, usage.rss with
    | some most, some rss =>
      if most < rss then
        (.error (workerCrashed (ascii ("worker used " ++ toString rss ++ " bytes, over max_memory=" ++
          toString most ++ "; killed"))), w.kill)
      else (.ok usage.cpu, w)
    | _, _ => (.ok usage.cpu, w)

/-- `_supervise` -/
def supervise (o : Options) (look : Look) : Step Unit := fun w =>
  if w.pump.expired look.now then
    (.error (runtimeTimeout (ascii "worker exceeded its " ++ o.g (w.pump.hard.getD 0) ++
      ascii "s hard deadline and was killed")), w.kill)
  else if w.pump.waitedTooLong look.now then
    (.error (runtimeTimeout (ascii "host callbacks kept the guest waiting for more than " ++
      o.g (w.pump.maxHostWait.getD 0) ++ ascii "s in one command (max_host_wait); worker killed")),
      w.kill)
  else
    match checkMemory o look.usage w with
    | (.error e, w) => (.error e, w)
    | (.ok nowCpu, w) =>
      match w.pump.cpuCap, w.pump.cpuStart, nowCpu with
      | some cap, some start, some now =>
        if cap < now - start then
          (.error (runtimeTimeout (ascii "worker used more than " ++ o.g cap ++
            ascii "s of CPU in one command and was killed")), w.kill)
        else (.ok (), w)
      | _, _, _ => (.ok (), w)

/-! ## Answers -/

/-- The classes of `_ERROR_CLASSES`. -/
inductive RemoteClass where
  | javaScriptError
  | runtimeTimeout
  | runtimeTerminated
  | runtimeForceKilled
  | runtimeError
  | valueError
  | typeError
  deriving Repr, DecidableEq

/-- A remote error: its class and its text. -/
structure Remote where
  cls : RemoteClass
  text : List ℕ
  deriving Repr, DecidableEq

/-- `_ERROR_CLASSES.get(kind, RuntimeError)` -/
def errorClass (kind : List ℕ) : RemoteClass :=
  if kind = ascii "JavaScriptError" then .javaScriptError
  else if kind = ascii "RuntimeTimeout" then .runtimeTimeout
  else if kind = ascii "RuntimeTerminated" then .runtimeTerminated
  else if kind = ascii "RuntimeForceKilled" then .runtimeForceKilled
  else if kind = ascii "ValueError" then .valueError
  else if kind = ascii "TypeError" then .typeError
  else .runtimeError

/-- `_MAX_REMOTE_MESSAGE` -/
def MAX_REMOTE_MESSAGE : ℕ := 64 * 1024

/-- `_remote_error`, without the note it adds for the host. -/
def remoteError {Date : Type} (unsafeText : ℕ → Bool) (message : Message Date) : Remote :=
  let cls := match plainField "kind" message with
    | .str kind => errorClass kind
    | _ => .runtimeError
  match plainField "msg" message with
  | .str text =>
    let text :=
      if MAX_REMOTE_MESSAGE < text.length then
        text.take MAX_REMOTE_MESSAGE ++
          ascii ("... [" ++ toString (text.length - MAX_REMOTE_MESSAGE) ++ " more characters]")
      else text
    ⟨cls, text.map fun c => if unsafeText c then 63 else c⟩
  | _ => ⟨cls, ascii "worker reported an error"⟩

/-! ## The loop -/

/-- What a read of the next frame comes to. -/
inductive Read where
  | timeout
  | eof
  | payload (data : Bytes)
  /-- A frame over the cap, or the end of the stream inside a frame. -/
  | malformed (text : List ℕ)
  | lost
  /-- An interruption such as `KeyboardInterrupt`. -/
  | interrupted (name : String)

/-- One pass of the loop: what it reads. `due` is whether a supervision is due
though a frame arrived. -/
structure Turn where
  read : Read
  due : Bool
  look : Look
  usage : Usage
  call : CallEnv

/-- What a pass of the loop comes to where it raises nothing. -/
inductive Answer (Date : Type) where
  | goOn
  | value (v : Option (Wire.Field Date))
  | remote (r : Remote)

section

variable (py : Wire.Python) (repr : List ℕ → String) (unsafeText : ℕ → Bool)

/-- `message["t"]` -/
def messageKind {Date : Type} (message : Message Date) : List ℕ :=
  match plainField "t" message with
  | .str kind => kind
  | _ => []

/-- The answer a message is to the command `cmd`: of kind `result` or `error`,
with its id. -/
def answers {Date : Type} (cmd : ℕ) (message : Message Date) : Bool :=
  (messageKind message = ascii "result" || messageKind message = ascii "error") &&
    eqInt (plainField "id" message) cmd

/-- One frame. -/
def onMessage (o : Options) (loop : Bool) (cmd : ℕ) (t : Turn) (message : Message py.Date) :
    Step (Answer py.Date) := fun w =>
  if messageKind message = ascii "call" then
    match onCall o loop message t.call w with
    | (.error e, w) => (.error e, w)
    | (.ok (), w) => (.ok .goOn, w)
  else if answers cmd message then
    match checkMemory o t.usage w with
    | (.error e, w) => (.error e, w)
    | (.ok _, w) =>
      if messageKind message = ascii "result" then
        (.ok (.value (getItem (ascii "v") message)), w)
      else (.ok (.remote (remoteError unsafeText message)), w)
  else
    (.error (wireError (ascii "unexpected " ++
      ascii (repr (clean unsafeText (messageKind message) 32)) ++ ascii " frame")), w)

/-- The body of the loop, inside its outer `try`. -/
def pumpBody (o : Options) (loop : Bool) (cmd : ℕ) (t : Turn) : Step (Answer py.Date) := fun w =>
  match t.read with
  | .timeout =>
    match supervise o t.look w with
    | (.error e, w) => (.error e, w)
    | (.ok (), w) => (.ok .goOn, w)
  | .malformed text => (.error (wireError text), w)
  | .lost => (.error (raising .osError "OSError" (ascii "the connection is closed")), w)
  | .interrupted name => (.error (.mk ⟨[], false⟩ (ascii name) (.ok false) (.ok [])), w)
  | .eof =>
    match if t.due then supervise o t.look w else (.ok (), w) with
    | (.error e, w) => (.error e, w)
    | (.ok (), w) => (.error (workerCrashed (ascii "worker process died")), w.kill)
  | .payload data =>
    match if t.due then supervise o t.look w else (.ok (), w) with
    | (.error e, w) => (.error e, w)
    | (.ok (), w) =>
      match Wire.loadsDecoded py data with
      | .error e => (.error (wireError (ascii (e.message repr))), w)
      | .ok message => onMessage py repr unsafeText o loop cmd t message w

/-- The `except` clauses of the loop: what is raised, and the session after
it. -/
def pumpExcept (e : Exc) (w : World) : Exc × World :=
  if e.isA .workerCrashed || e.isA .runtimeTimeout then (e, w)
  else if e.isA .hostCallBudgetExceeded then
    (match e.text with | .ok text => workerCrashed text | .error x => x, w.kill)
  else if e.isA .wireError then
    (match e.text with
      | .ok text => workerCrashed (ascii "worker broke protocol: " ++ clean unsafeText text 500)
      | .error x => x, w.kill)
  else if e.isA .osError then (workerCrashed (ascii "lost the worker"), w.kill)
  else if e.isException then
    (workerCrashed (ascii "worker sent a malformed frame (" ++ e.name ++ ascii ")"), w.kill)
  else (e, w.kill)

/-- How a command ends. -/
inductive Ending (Date : Type) where
  | running (w : World)
  | returned (v : Option (Wire.Field Date)) (w : World)
  | remote (r : Remote) (w : World)
  | raised (e : Exc) (w : World)

/-- **`_pump`.** -/
def pump (o : Options) (loop : Bool) (cmd : ℕ) : List Turn → World → Ending py.Date
  | [], w => .running w
  | t :: turns, w =>
    match pumpBody py repr unsafeText o loop cmd t w with
    | (.ok .goOn, w) => pump o loop cmd turns w
    | (.ok (.value v), w) => .returned v w
    | (.ok (.remote r), w) => .remote r w
    | (.error e, w) => .raised (pumpExcept unsafeText e w).1 (pumpExcept unsafeText e w).2

end

end Pydeno.Isolated
