import Pydeno.Isolated.Model.Command
/-!
# A session and its capabilities

`bind_function`, `bind_object`, `set_module_resolver`, `set_module_loader` and
`revoke_op` of `IsolatedRuntime`, over the command loop. A session goes through
events: an operation begins and its command is sent, the pump takes a turn, the
command fails, a token is revoked (which another thread may do at any time), an
asynchronous handler that was queued starts, or ends, the worker is killed.

Beside the tables of the code the session keeps what its caller knows: the
tokens the binds returned and that are not revoked (`live`), and the hooks set
for good (`hooks`).
-/

namespace Pydeno.Isolated

open Wire (Decoded Scalar)

/-! ## The tables -/

namespace Runtime

/-- A handler is registered under the next id. -/
def register (rt : Runtime) (handler : Handler) : Runtime :=
  { rt with handlers := rt.handlers ++ [(rt.nextHid, handler)], nextHid := rt.nextHid + 1 }

/-- `bind_function` and `bind_object` mark it as a tool. -/
def registerTool (rt : Runtime) (handler : Handler) : Runtime :=
  { rt.register handler with toolHids := rt.toolHids ++ [rt.nextHid] }

/-- The callable entries of an object, and the ids they get. -/
def registerAll : List (List ℕ × Handler) → Runtime → List (List ℕ × ℕ) × Runtime
  | [], rt => ([], rt)
  | (key, handler) :: rest, rt =>
    let (hids, rt') := registerAll rest (rt.registerTool handler)
    ((key, rt.nextHid) :: hids, rt')

/-- `self._handlers.pop(hid, None)` for each id. -/
def popAll (rt : Runtime) (hids : List ℕ) : Runtime :=
  { rt with handlers := rt.handlers.filter fun e => e.1 ∉ hids }

end Runtime

/-- `_REVOKED_MEMORY` -/
def REVOKED_MEMORY : ℕ := 4096

/-- A revoked id is remembered; the oldest is forgotten over the limit. -/
def remember (revoked : List ℕ) (hid : ℕ) : List ℕ :=
  let revoked := if hid ∈ revoked then revoked else revoked ++ [hid]
  if REVOKED_MEMORY < revoked.length then revoked.tail else revoked

/-- The tables after `revoke_op`. -/
def Runtime.revoke (rt : Runtime) (token : ℤ) : Runtime :=
  match rt.tokenToHid.find? fun e => e.1 = token with
  | none => rt
  | some (_, hid) =>
    { rt.popAll [hid] with
      tokenToHid := rt.tokenToHid.filter fun e => e.1 ≠ token
      toolHids := rt.toolHids.filter fun h => h ≠ hid
      revokedHids := remember rt.revokedHids hid }

/-- `_register_token` for one token after the other; `false` is the
`WorkerCrashed` a token that is taken raises. -/
def registerTokens : List (ℤ × ℕ) → World → Bool × World
  | [], w => (true, w)
  | (token, hid) :: rest, w =>
    if w.rt.tokenToHid.any fun e => e.1 = token then
      (false, { w with rt := w.rt.popAll [hid] }.kill)
    else
      registerTokens rest
        { w with rt := { w.rt with tokenToHid := w.rt.tokenToHid ++ [(token, hid)] } }

/-! ## What a bind's command returned -/

/-- `_is_token` -/
def token? {Date : Type} : Decoded Date → Option ℤ
  | .plain (.int z) => some z
  | .tagged (.int z) => some z
  | _ => none

/-- The value as a Python dict. -/
def dictOf (py : Wire.Python) : Decoded py.Date → Option (List (Scalar py.Date × Decoded py.Date))
  | .dict entries => some (Wire.pyDict py.dateEq (entries.map fun e => (.str e.1, e.2)))
  | .mapping entries =>
    (entries.mapM fun e : Decoded py.Date × Decoded py.Date => e.1.scalar?.map (·, e.2)).map
      (Wire.pyDict py.dateEq)
  | _ => none

/-- The tokens by name, if each key is a string and each value a token. -/
def tokensOf (py : Wire.Python) (d : Decoded py.Date) : Option (List (List ℕ × ℤ)) :=
  (dictOf py d).bind fun entries => entries.mapM fun e =>
    match e with
    | (.str key, v) => (token? v).map (key, ·)
    | _ => none

/-- `bind_object`'s check: a token for each callable entry, and no other. Each
token with the id it is to stand for. -/
def objectTokens (py : Wire.Python) (hids : List (List ℕ × ℕ)) (d : Decoded py.Date) :
    Option (List (ℤ × ℕ)) :=
  (tokensOf py d).bind fun tokens =>
    if hids.all fun e => e.1 ∈ tokens.map Prod.fst then
      tokens.mapM fun e => (hids.lookup e.1).map (e.2, ·)
    else none

/-! ## Operations -/

/-- **An operation of the session's owner.** The keys of an object are
distinct, as those of a mapping are. -/
inductive Op where
  | bindFunction (handler : Handler)
  | bindObject (entries : List (List ℕ × Handler)) (distinct : (entries.map Prod.fst).Nodup)
  /-- `set_module_resolver` or `set_module_loader`. -/
  | setHook (handler : Handler)
  | command

/-- The command an operation has in flight, with the ids it registered. -/
inductive Command where
  | bindFunction (hid : ℕ)
  | bindObject (hids : List (List ℕ × ℕ))
  | setHook (hid : ℕ)
  | command
  deriving Repr, DecidableEq

def Command.hids : Command → List ℕ
  | .bindFunction hid => [hid]
  | .bindObject hids => hids.map Prod.snd
  | .setHook hid => [hid]
  | .command => []

/-- What an operation registers before it sends its command. -/
def Op.register (rt : Runtime) : Op → Command × Runtime
  | .bindFunction handler => (.bindFunction rt.nextHid, rt.registerTool handler)
  | .bindObject entries _ => (.bindObject (rt.registerAll entries).1, (rt.registerAll entries).2)
  | .setHook handler => (.setHook rt.nextHid, rt.register handler)
  | .command => (.command, rt)

/-- **A session.** `runs` are the ids of the handlers run so far, `waiting` those of
the asynchronous ones that are queued and have not started, and `running` those
that have started and not ended. -/
structure Session where
  world : World
  nextCmd : ℕ
  inFlight : Option (ℕ × Command)
  loop : Bool
  live : List (ℤ × ℕ)
  hooks : List ℕ
  runs : List ℕ
  waiting : List ℕ
  running : List ℕ

/-- **A fresh session**: the console's handler, if any, is the first one
registered. -/
def Session.new (o : Options) (pump : Pump) : Session where
  world :=
    { rt :=
        { handlers := o.consoleHid.toList.map fun c => (c, ⟨false, false⟩)
          tokenToHid := [], toolHids := [], revokedHids := []
          nextHid := o.consoleHid.getD 0 + 1
          hostCalls := 0, asyncInflight := 0, closed := false, killed := false
          written := [], accepted := [] }
      pump := pump }
  nextCmd := 1
  inFlight := none
  loop := false
  live := []
  hooks := o.consoleHid.toList
  runs := []
  waiting := []
  running := []

/-- The command raises: what its operation registered is dropped. -/
def Session.failed (s : Session) (cmd : Command) : Session :=
  { s with world := { s.world with rt := s.world.rt.popAll cmd.hids }, inFlight := none }

/-- The worker lied about tokens: the operation drops what it registered, and
the session ends. -/
def Session.malformed (s : Session) (cmd : Command) : Session :=
  { s.failed cmd with world := (s.failed cmd).world.kill }

/-- The tokens are registered and returned, unless one is taken. -/
def Session.bound (s : Session) (tokens : List (ℤ × ℕ)) : Session :=
  match registerTokens tokens s.world with
  | (true, w) => { s with world := w, inFlight := none, live := s.live ++ tokens }
  | (false, w) => { s with world := w, inFlight := none }

/-- The command returns the value of a result frame. -/
def Session.returned (py : Wire.Python) (s : Session) (cmd : Command)
    (v : Option (Wire.Field py.Date)) : Session :=
  let d := match v with
    | some (.single d) => d
    | _ => .plain .none
  match cmd with
  | .bindFunction hid =>
    match token? d with
    | none => s.malformed cmd
    | some token => s.bound [(token, hid)]
  | .bindObject hids =>
    match objectTokens py hids d with
    | none => s.malformed cmd
    | some tokens => s.bound tokens
  | .setHook hid => { s with inFlight := none, hooks := s.hooks ++ [hid] }
  | .command => { s with inFlight := none }

/-- `revoke_op`, before its command. The token is the owner's no more. -/
def Session.revoke (s : Session) (token : ℤ) : Session :=
  { s with
    world := { s.world with rt := s.world.rt.revoke token }
    live := s.live.filter fun e => e.1 ≠ token }

/-- What happens to a session. -/
inductive Event where
  | begin (op : Op) (loop : Bool) (pump : Pump)
  | turn (t : Turn)
  /-- The command fails outside the pump: it cannot be sent, or the gate
  refuses it. -/
  | fails
  | revoke (token : ℤ)
  /-- The event loop comes to a queued call: `_call_guarded`. -/
  | asyncStarts (i : ℕ)
  /-- An asynchronous call ends, or is cancelled before it has started (`queued`);
  it may be one of the command in flight (`current`) or of an earlier one. -/
  | asyncEnds (queued : Bool) (i : ℕ) (cid : ℤ) (b : Behaviour) (env : CallEnv) (current : Bool)
  | kill

/-- Whether a handler's calls go to the event loop. -/
def Session.onLoop (s : Session) (h : ℕ) : Bool :=
  s.loop && s.world.rt.handlers.any fun e => e.1 = h && e.2.isAsync

/-- The session right after a turn of the pump, before its command's end: what
was called has been run, or is queued. -/
def Session.after (s : Session) (w : World) : Session :=
  let called := w.rt.accepted.drop s.world.rt.accepted.length
  { s with
    world := w
    runs := s.runs ++ called.filter (!s.onLoop ·)
    waiting := s.waiting ++ called.filter s.onLoop }

section

variable (py : Wire.Python) (repr : List ℕ → String) (unsafeText : ℕ → Bool) (o : Options)

/-- An operation begins; a closed runtime refuses its command. -/
def Session.begin (s : Session) (op : Op) (loop : Bool) (pump : Pump) : Session :=
  let (cmd, rt) := op.register s.world.rt
  if rt.closed then { s with world := { s.world with rt := rt.popAll cmd.hids } }
  else
    { s with
      world := ⟨rt, pump⟩, nextCmd := s.nextCmd + 1, inFlight := some (s.nextCmd, cmd), loop := loop }

/-- A turn of the pump. Nothing can be read from a killed worker. -/
def Session.turn (s : Session) (id : ℕ) (cmd : Command) (t : Turn) : Session :=
  if s.world.rt.killed then s.failed cmd
  else
    let (result, w) := pumpBody py repr unsafeText o s.loop id t s.world
    match result with
    | .ok .goOn => s.after w
    | .ok (.value v) => (s.after w).returned py cmd v
    | .ok (.remote _) => (s.after w).failed cmd
    | .error e => { s.after w with world := (pumpExcept unsafeText e w).2 }.failed cmd

/-- The `i`-th queued call starts. Nothing is looked up again. -/
def Session.asyncStarts (s : Session) (i : ℕ) : Session :=
  match s.waiting[i]? with
  | some h =>
    { s with runs := s.runs ++ [h], waiting := s.waiting.eraseIdx i, running := s.running ++ [h] }
  | none => s

/-- The `i`-th asynchronous call ends, of those queued or of those running:
`_finish_async_call`. -/
def Session.asyncEnds (s : Session) (queued : Bool) (i : ℕ) (cid : ℤ) (b : Behaviour)
    (env : CallEnv) (current : Bool) : Session :=
  let w := (finishAsyncCall o cid b env s.world).2
  { s with
    world := ⟨w.rt, if current then w.pump else s.world.pump⟩
    waiting := if queued then s.waiting.eraseIdx i else s.waiting
    running := if queued then s.running else s.running.eraseIdx i }

/-- **One event.** -/
def Session.step (s : Session) (e : Event) : Session :=
  match e, s.inFlight with
  | .begin op loop pump, none => s.begin op loop pump
  | .turn t, some (id, cmd) => s.turn py repr unsafeText o id cmd t
  | .fails, some (_, cmd) => s.failed cmd
  | .revoke token, _ => s.revoke token
  | .asyncStarts i, _ => s.asyncStarts i
  | .asyncEnds queued i cid b env current, _ =>
    if i < (if queued then s.waiting else s.running).length then
      s.asyncEnds o queued i cid b env current
    else s
  | .kill, _ => { s with world := s.world.kill }
  | _, _ => s

/-- **A run of a session.** -/
def Session.run (s : Session) (events : List Event) : Session :=
  events.foldl (step py repr unsafeText o) s

end

end Pydeno.Isolated
