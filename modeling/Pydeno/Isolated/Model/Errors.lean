import Pydeno.Wire.Model.Writer
/-!
# Exceptions and error replies

What the host's `except` clauses can tell about a Python exception, and how a
host function's failure becomes a reply to the guest: `_Redaction`,
`_error_reply` and `tool_timeout_error` of `_isolated.py`, and `dumps` of
`_wire.py`. Reading an exception's message runs the exception's own code, so it
may raise; so may reading its `_pydeno_public` attribute, and so may walking a
value to encode it.
-/

namespace Pydeno.Isolated

open Wire (Bytes ascii)

/-! ## Exceptions -/

/-- The classes some `except` clause names. -/
inductive Base where
  | workerCrashed
  | runtimeTimeout
  | hostCallBudgetExceeded
  | wireError
  | stalledWrite
  | osError
  | valueError
  deriving Repr, DecidableEq

/-- The class of an exception: which of the named classes it derives from, and
whether it derives from `Exception` at all (`KeyboardInterrupt` does not). -/
structure ErrType where
  bases : List Base
  exception : Bool
  deriving Repr, DecidableEq

/-- **An exception object**: its class and the class's name, what reading its
`_pydeno_public` attribute gives (`true` for `True` itself), and what `str()`
of it gives. -/
inductive Exc where
  | mk (type : ErrType) (name : List ℕ) (pub : Except Exc Bool) (text : Except Exc (List ℕ))

namespace Exc

def type : Exc → ErrType
  | mk t _ _ _ => t

/-- `type(exc).__name__` -/
def name : Exc → List ℕ
  | mk _ n _ _ => n

/-- `getattr(exc, "_pydeno_public", False) is True` -/
def pub : Exc → Except Exc Bool
  | mk _ _ p _ => p

/-- `str(exc)` -/
def text : Exc → Except Exc (List ℕ)
  | mk _ _ _ t => t

/-- `isinstance(exc, ...)` for a class an `except` clause names; a stalled
write is an `OSError`. -/
def isA (e : Exc) (b : Base) : Bool :=
  b ∈ e.type.bases || (b = .osError && .stalledWrite ∈ e.type.bases)

/-- `isinstance(exc, Exception)` -/
def isException (e : Exc) : Bool :=
  e.type.exception || !e.type.bases.isEmpty

end Exc

/-- An exception the code itself raises, with a plain message. -/
def raising (b : Base) (name : String) (text : List ℕ) : Exc :=
  .mk ⟨[b], true⟩ (ascii name) (.ok false) (.ok text)

/-- A built-in exception no clause names. -/
def builtin (name text : String) : Exc :=
  .mk ⟨[], true⟩ (ascii name) (.ok false) (.ok (ascii text))

def workerCrashed (text : List ℕ) : Exc := raising .workerCrashed "WorkerCrashed" text

def runtimeTimeout (text : List ℕ) : Exc := raising .runtimeTimeout "RuntimeTimeout" text

def wireError (text : List ℕ) : Exc := raising .wireError "WireError" text

/-! ## Redaction -/

/-- `_Redaction`. The hook's answer is `true` where it is `True` itself. -/
structure Redaction where
  enabled : Bool
  expose : Option (Exc → Except Exc Bool)

/-- `_Redaction.exposes`: a hook that raises exposes nothing. -/
def Redaction.exposes (r : Redaction) (e : Exc) : Except Exc Bool :=
  match r.expose with
  | none => .ok false
  | some hook =>
    match hook e with
    | .ok shown => .ok shown
    | .error x => if x.isException then .ok false else .error x

/-! ## Replies -/

/-- What walking a host function's value to encode it comes to: the bytes
written, a refusal by the encoder, or an exception of the value's own code. -/
inductive Walk where
  | writes (payload : Bytes)
  | refuses (text : List ℕ)
  | raises (e : Exc)

/-- A reply frame: a value, or a failure by class name and message. -/
inductive Reply where
  | value (cid : ℤ) (walk : Walk)
  | error (cid : ℤ) (err etype : List ℕ)

def Reply.cid : Reply → ℤ
  | .value cid _ => cid
  | .error cid _ _ => cid

/-- The text of a redacted message. -/
def REDACTED : List ℕ := ascii "host function failed"

/-- `_error_reply` -/
def errorReply (redact : Redaction) (cid : ℤ) (e : Exc) : Except Exc Reply :=
  let etype := if e.isA .wireError then ascii "TypeError" else e.name
  match e.pub with
  | .error x => .error x
  | .ok isPublic =>
    -- `exposes` is asked only where the message would be redacted
    match if redact.enabled && !isPublic then (redact.exposes e).map not else .ok false with
    | .error x => .error x
    | .ok hidden =>
      match if hidden then .ok REDACTED else e.text with
      | .error x => .error x
      | .ok text => .ok (.error cid text etype)

/-- `tool_timeout_error()`: public, so never redacted. -/
def toolTimeoutError : Exc :=
  .mk ⟨[.osError], true⟩ (ascii "TimeoutError") (.ok true) (.ok (ascii "host function timed out"))

/-! ## Encoding -/

/-- How the native encoder fails. -/
inductive Failure where
  | native (text : List ℕ)
  | raised (e : Exc)

/-- The encoder on a marked value. -/
def encodedWalk : Walk → Bytes → Except Failure Bytes
  | .writes payload, buf => .ok (buf ++ payload)
  | .refuses text, _ => .error (.native text)
  | .raises e, _ => .error (.raised e)

/-- The message of a reply. -/
def Reply.message : Reply → List (List ℕ × Wire.Item Walk)
  | .value cid walk =>
    [(ascii "t", .str (ascii "reply")), (ascii "cid", .int cid), (ascii "v", .enc walk)]
  | .error cid err etype =>
    [(ascii "t", .str (ascii "reply")), (ascii "cid", .int cid), (ascii "err", .str err),
      (ascii "etype", .str etype)]

/-- What `dumps` says of an exception the value's own code raised. -/
def walkText (name text : List ℕ) : List ℕ :=
  ascii "value raised " ++ name ++ ascii " while being encoded: " ++ text

/-- **`dumps`** of a reply. A `ValueError` goes through as it is; any other
exception of the value is told as a `WireError`, which reads its message. -/
def dumps (reply : Reply) : Except Exc Bytes :=
  match Wire.wireDumps encodedWalk Failure.native reply.message with
  | .ok payload => .ok payload
  | .error (.native text) => .error (wireError text)
  | .error (.raised e) =>
    if e.isA .valueError then .error e
    else if e.isException then
      match e.text with
      | .ok text => .error (wireError (walkText e.name text))
      | .error x => .error x
    else .error e

end Pydeno.Isolated
