import Pydeno.Isolated.Model.Errors
import Pydeno.Isolated.Model.Pump
/-!
# Host calls

`_on_call` and what it leads to: `_run_watched`, `_run_sync_handler`,
`_run_timed_handler`, `_send_reply` and `_finish_async_call` of
`IsolatedRuntime`. A step that may raise returns the exception together with
the state it leaves behind.

What the code does not decide is an argument: what the host function does
(`Behaviour`), how its thread ends under `tool_timeout` (`ThreadEnd`), what the
idle watchdog does meanwhile (`Watch`), what the pipe does with a frame
(`Pipe`), and the readings of the clock (`CallEnv`).
-/

namespace Pydeno.Isolated

open Wire (Bytes ascii Obj getItem)

/-! ## State -/

/-- What is fixed for the session: the limits and policies `_on_call` reads. -/
structure Options where
  maxHostCalls : Option ℕ
  maxInflight : Option ℕ
  toolTimeout : Option ℚ
  consoleHid : Option ℕ
  redact : Redaction
  maxMemory : Option ℕ
  /-- `format(x, "g")` -/
  g : ℚ → List ℕ

/-- A registered host function: whether it is a coroutine function, and its
`_pydeno_untimed` attribute. -/
structure Handler where
  isAsync : Bool
  untimed : Bool
  deriving Repr, DecidableEq

/-- **The host's side of the session.** `written` holds the reply frames sent
to the worker, `accepted` the ids of the handlers that calls were answered by:
run at once, or queued on the event loop. -/
structure Runtime where
  handlers : List (ℕ × Handler)
  tokenToHid : List (ℤ × ℕ)
  toolHids : List ℕ
  revokedHids : List ℕ
  nextHid : ℕ
  hostCalls : ℕ
  asyncInflight : ℤ
  closed : Bool
  killed : Bool
  written : List Reply
  accepted : List ℕ

/-- The session and the command in flight. -/
structure World where
  rt : Runtime
  pump : Pump

/-- A step that may raise. -/
abbrev Step (α : Type) := World → Except Exc α × World

/-- `_kill`, in the process that owns the worker. -/
def World.kill (w : World) : World :=
  { w with rt := { w.rt with closed := true, killed := true } }

/-! ## What the code does not decide -/

/-- What a host function does when it is run. -/
inductive Behaviour where
  | returns (walk : Walk)
  | raises (e : Exc)

/-- How a handler thread under `tool_timeout` ends for the thread that waits:
it could not be started, it ended, or it was given up on with so many calls
now running past their deadline. -/
inductive ThreadEnd where
  | noThread (text : String)
  | ended (b : Behaviour)
  | outlasted (count : ℤ)

/-- What the idle watchdog does while a handler runs: it kills the worker for
its memory or threads, or leaves the verdict of `_supervise`. -/
inductive Watch where
  | crashed
  | timedOut (text : List ℕ)

/-- What the pipe does with a frame. -/
inductive Pipe where
  | takes
  | stalls
  | broken
  deriving Repr, DecidableEq

/-- Everything around one call. `watchFirst` says whether the watchdog acts
before the reply is sent or after. -/
structure CallEnv where
  beginAt : ℚ
  endAt : ℚ
  behaviour : Behaviour
  thread : ThreadEnd
  schedule : Option Exc
  watch : Option Watch
  watchFirst : Bool
  pipe : Pipe
  pipe2 : Pipe

/-! ## Python's comparisons -/

/-- `o == z` -/
def eqInt : Obj → ℤ → Bool
  | .int i, z => i = z
  | .bool b, z => (if b then 1 else 0) = z
  | .float f, z => Wire.numKeyOfFloat f = .fin (z * Binary64.scale)
  | _, _ => false

/-- `isinstance(o, int)`: a bool is an int. -/
def isInt : Obj → Bool
  | .int _ => true
  | .bool _ => true
  | _ => false

/-- A message as `loads_decoded` returns it. -/
abbrev Message (Date : Type) := List (List ℕ × Wire.Field Date)

/-- `message.get(key)` for a field that is not decoded. -/
def plainField {Date : Type} (key : String) (message : Message Date) : Obj :=
  match getItem (ascii key) message with
  | some (.plain o) => o
  | _ => .null

/-- `isinstance(message.get("args"), list)` -/
def argsIsList {Date : Type} (message : Message Date) : Bool :=
  match getItem (ascii "args") message with
  | some (.multi _) => true
  | some (.single (.list _)) => true
  | some (.plain (.list _)) => true
  | _ => false

/-- `hid in self._revoked_hids`: a list or a dict cannot be hashed. -/
def inRevoked (hid : Obj) (revoked : List ℕ) : Except Exc Bool :=
  match hid with
  | .list _ => .error (builtin "TypeError" "unhashable type: 'list'")
  | .dict _ => .error (builtin "TypeError" "unhashable type: 'dict'")
  | o => .ok (revoked.any fun h : ℕ => eqInt o h)

/-! ## Replies -/

/-- `FrameWriter.send`: the frame is built whole before a byte is written. -/
def send (reply : Reply) (pipe : Pipe) : Step Unit := fun w =>
  match dumps reply with
  | .error e => (.error e, w)
  | .ok _ =>
    match pipe with
    | .takes => (.ok (), { w with rt := { w.rt with written := w.rt.written ++ [reply] } })
    | .stalls => (.error (raising .stalledWrite "StalledWrite" (ascii "the peer stopped reading")), w)
    | .broken => (.error (raising .osError "BrokenPipeError" (ascii "Broken pipe")), w)

/-- The fallback of `_send_reply`: the failure of the first frame, as an error
of the call. -/
def sendError (o : Options) (cid : ℤ) (e : Exc) (pipe : Pipe) : Step Unit := fun w =>
  match errorReply o.redact cid e with
  | .error x => (.error x, w)
  | .ok reply => send reply pipe w

/-- The inner `try` of `_send_reply`. -/
def trySend (o : Options) (reply : Reply) (env : CallEnv) : Step Unit := fun w =>
  match send reply env.pipe w with
  | (.ok (), w) => (.ok (), w)
  | (.error e, w) =>
    if e.isA .wireError then sendError o reply.cid e env.pipe2 w
    else if e.isA .osError then (.error e, w)
    else if e.isException then sendError o reply.cid e env.pipe2 w
    else (.error e, w)

/-- **`_send_reply`.** `onPump` is whether a pump is to be told that the call
has ended, which happens whatever becomes of the frame. -/
def sendReply (o : Options) (reply : Reply) (onPump : Bool) (env : CallEnv) : Step Unit := fun w =>
  let (result, w) :=
    if w.rt.closed then ((.ok () : Except Exc Unit), w)
    else
      match trySend o reply env w with
      | (.ok (), w) => (.ok (), w)
      | (.error e, w) =>
        if e.isA .stalledWrite then (.ok (), w.kill)
        else if e.isA .osError then (.ok (), w)
        else (.error e, w)
  (result, if onPump then { w with pump := w.pump.endCall env.endAt } else w)

/-- A failure of the host function, told to the guest: `_error`, then
`_send_reply`. -/
def replyError (o : Options) (cid : ℤ) (e : Exc) (onPump : Bool) (env : CallEnv) : Step Unit :=
  fun w =>
  match errorReply o.redact cid e with
  | .error x => (.error x, w)
  | .ok reply => sendReply o reply onPump env w

/-! ## Running a handler -/

/-- The handler a call is answered by: a registered one under its id, or
`_revoked_handler`. -/
structure Entry where
  hid : Option ℕ
  handler : Handler
  deriving Repr, DecidableEq

/-- What `_revoked_handler` raises; it is a plain function. -/
def revokedError : Exc :=
  .mk ⟨[.osError], true⟩ (ascii "PermissionError") (.ok false) (.ok (ascii "capability revoked"))

def revokedEntry : Entry := ⟨none, ⟨false, false⟩⟩

/-- What running the entry does: a registered handler behaves as it likes. -/
def Entry.behaviour (entry : Entry) (b : Behaviour) : Behaviour :=
  match entry.hid with
  | some _ => b
  | none => .raises revokedError

/-- A call is answered by a registered handler. -/
def World.accept (w : World) (entry : Entry) : World :=
  match entry.hid with
  | some hid => { w with rt := { w.rt with accepted := w.rt.accepted ++ [hid] } }
  | none => w

/-- `_run_sync_handler` -/
def runSyncHandler (o : Options) (entry : Entry) (cid : ℤ) (onPump : Bool) (env : CallEnv) :
    Step Unit := fun w =>
  let w := w.accept entry
  match entry.behaviour env.behaviour with
  | .returns walk => sendReply o (.value cid walk) onPump env w
  | .raises e => if e.isException then replyError o cid e onPump env w else (.error e, w)

/-- `MAX_ABANDONED_TOOL_CALLS` -/
def MAX_ABANDONED_TOOL_CALLS : ℤ := 8

/-- `abandoned_message` -/
def abandonedMessage (o : Options) (limit : ℚ) (count : ℤ) : List ℕ :=
  ascii "too many abandoned tool calls in this session (" ++ ascii (toString count) ++
    ascii " calls outlasted tool_timeout=" ++ o.g limit ++
    ascii "s and are still running); worker killed"

/-- `box[0]` of an empty box. -/
def indexError : Exc := builtin "IndexError" "list index out of range"

/-- What the handler's thread leaves in the box: nothing where the handler ends
by an exception that is no `Exception`, or by one whose reply cannot be
built. -/
def boxed (o : Options) (cid : ℤ) : Behaviour → Option Reply
  | .returns walk => some (.value cid walk)
  | .raises e => if e.isException then (errorReply o.redact cid e).toOption else none

/-- `_run_timed_handler`, as the waiting thread sees it. -/
def runTimedHandler (o : Options) (entry : Entry) (cid : ℤ) (onPump : Bool) (limit : ℚ)
    (env : CallEnv) : Step Unit := fun w =>
  match env.thread with
  | .noThread text => replyError o cid (builtin "RuntimeError" text) onPump env w
  | .ended b =>
    let w := w.accept entry
    match boxed o cid (entry.behaviour b) with
    | some reply => sendReply o reply onPump env w
    | none => (.error indexError, w)
  | .outlasted count =>
    let w := w.accept entry
    if MAX_ABANDONED_TOOL_CALLS < count then
      match replyError o cid toolTimeoutError onPump env w.kill with
      | (.error e, w) => (.error e, w)
      | (.ok (), w) => (.error (workerCrashed (abandonedMessage o limit count)), w)
    else replyError o cid toolTimeoutError onPump env w

/-- The watchdog acts. -/
def Watch.act (watch : Option Watch) (w : World) : World :=
  match watch with
  | none => w
  | some _ => w.kill

/-- `_run_watched`: a verdict of the watchdog is raised once the handler has
returned. -/
def runWatched (o : Options) (entry : Entry) (cid : ℤ) (onPump : Bool) (limit : Option ℚ)
    (env : CallEnv) : Step Unit := fun w =>
  let w := if env.watchFirst then Watch.act env.watch w else w
  let (result, w) :=
    match limit with
    | none => runSyncHandler o entry cid onPump env w
    | some limit => runTimedHandler o entry cid onPump limit env w
  let w := if env.watchFirst then w else Watch.act env.watch w
  match result, env.watch with
  | .error e, _ => (.error e, w)
  | .ok (), some (.timedOut text) => (.error (runtimeTimeout text), w)
  | .ok (), _ => (.ok (), w)

/-! ## A call frame -/

/-- The entry a call frame names, if any. -/
def lookup (hid : Obj) (rt : Runtime) : Except Exc (Option Entry) :=
  match if isInt hid then rt.handlers.find? (fun h : ℕ × Handler => eqInt hid h.1) else none with
  | some (h, handler) => .ok (some ⟨some h, handler⟩)
  | none => (inRevoked hid rt.revokedHids).map fun revoked =>
      if revoked then some revokedEntry else none

/-- The refusal of a call over the in-flight cap. -/
def inflightReply (cid : ℤ) (most : ℕ) : Reply :=
  .error cid (ascii ("more than " ++ toString most ++ " host calls in flight")) (ascii "RuntimeError")

/-- A tool call: within the in-flight cap, on the pump's books, queued on the loop
or run on this thread. `loop` is whether the command has an event loop. -/
def toolCall (o : Options) (loop : Bool) (hid : Obj) (entry : Entry) (cid : ℤ) (env : CallEnv) :
    Step Unit := fun w =>
  let full : Option ℕ := o.maxInflight.filter fun most : ℕ =>
    decide ((most : ℤ) ≤ w.pump.outstanding) || decide ((most : ℤ) ≤ w.rt.asyncInflight)
  match full with
  | some most => sendReply o (inflightReply cid most) false env w
  | none =>
    let timed := w.rt.toolHids.any (fun h : ℕ => eqInt hid h) && !entry.handler.untimed
    let limit := if timed then o.toolTimeout else none
    let w := { w with pump := w.pump.beginCall env.beginAt }
    if entry.handler.isAsync && loop then
      let counted := { w with rt := { w.rt with asyncInflight := w.rt.asyncInflight + 1 } }
      match env.schedule with
      | none => (.ok (), counted.accept entry)
      | some e => replyError o cid e true env w
    else runWatched o entry cid true limit env w

/-- **`_on_call`.** -/
def onCall {Date : Type} (o : Options) (loop : Bool) (message : Message Date) (env : CallEnv) :
    Step Unit := fun w =>
  let hid := plainField "hid" message
  match lookup hid w.rt with
  | .error e => (.error e, w)
  | .ok found =>
    match plainField "cid" message, found, argsIsList message with
    | .int cid, some entry, true =>
      if o.consoleHid.any (fun c : ℕ => eqInt hid c) then
        let w := { w with pump := w.pump.beginConsole env.beginAt }
        let (result, w) := runWatched o entry cid false none env w
        (result, { w with pump := w.pump.endConsole env.endAt })
      else
        let w := { w with rt := { w.rt with hostCalls := w.rt.hostCalls + 1 } }
        match o.maxHostCalls.filter (fun most : ℕ => most < w.rt.hostCalls) with
        | some most =>
          (.error (raising .hostCallBudgetExceeded "_HostCallBudgetExceeded"
            (ascii ("guest made more than max_host_calls=" ++ toString most ++ " host calls"))), w)
        | none => toolCall o loop hid entry cid env w
    | _, _, _ => (.error (wireError (ascii "call for an unknown host function")), w)

/-- **`_finish_async_call`**, with what the call's future holds. -/
def finishAsyncCall (o : Options) (cid : ℤ) (b : Behaviour) (env : CallEnv) : Step Unit := fun w =>
  let w := { w with rt := { w.rt with asyncInflight := w.rt.asyncInflight - 1 } }
  match b with
  | .returns walk => sendReply o (.value cid walk) true env w
  | .raises e => replyError o cid e true env w

end Pydeno.Isolated
