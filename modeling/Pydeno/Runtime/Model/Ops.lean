import Pydeno.Lib.Dict
import Pydeno.Wire.Model.Python
/-!
# Op capabilities

`PythonOpRegistry` with `token_from_js` and `lookup_entry` (`runtime/ops.rs`),
the runner's commands on it, and the methods of `Runtime` that register, bind
and revoke (`python/runtime.rs`, `runner/core.rs`). A `Runtime` is unsendable
and its runner serves one command at a time, so a method is one step.

What the model does not compute is a parameter of the method: the entropy, and
at each point where the source can fail whether it does. A command the runner
refuses (`if_alive`) is one that is not `served`. `Handler` are the Python
callables.
-/

namespace Pydeno.Runtime.Ops

/-- Text, as its code points. -/
abbrev Text := List ℕ

/-- `PythonOpMode`. -/
inductive Mode where
  | sync
  | async
  deriving DecidableEq, Repr

/-- `PythonOpEntry`. -/
structure Entry (Handler : Type*) where
  id : ℕ
  name : Text
  mode : Mode
  handler : Handler
  deriving DecidableEq, Repr

/-- `MAX_OP_TOKEN`. -/
def maxOpToken : ℕ := 2 ^ 53 - 1

/-! ## Drawing a token -/

/-- The bytes of a version 4 UUID. -/
abbrev Uuid := Fin 16 → Fin 256

/-- `token_from_uuid_bytes`: eight of the bytes, the first the lowest. -/
def tokenFromUuidBytes (b : Uuid) : ℕ :=
  ([b 0, b 1, b 2, b 3, b 4, b 5, b 7, b 9].foldr (fun byte rest => byte.val + 256 * rest) 0)

/-- `random_op_token`: the first token that is not zero, and the entropy left.
`none` means that it is still drawing when the entropy ends. -/
def randomOpToken : List Uuid → Option (ℕ × List Uuid)
  | [] => none
  | b :: rest =>
    let token := tokenFromUuidBytes b % (maxOpToken + 1)
    if token ≠ 0 then some (token, rest) else randomOpToken rest

/-- The loop of `register`: draw again while the token is taken. Each round
takes some of the entropy, so as many rounds as there are draws are enough. -/
def drawUntaken (taken : ℕ → Bool) : ℕ → List Uuid → Option ℕ
  | 0, _ => none
  | rounds + 1, draws =>
    match randomOpToken draws with
    | none => none
    | some (id, rest) => if taken id then drawUntaken taken rounds rest else some id

/-! ## The registry -/

/-- `PythonOpRegistryInner`. -/
structure Registry (Handler : Type*) where
  handlers : Dict ℕ (Entry Handler)
  exposed : Finset ℕ

variable {Handler : Type*}

namespace Registry

/-- `PythonOpRegistry::new`. -/
def new : Registry Handler := ⟨.empty, ∅⟩

/-- What `register` draws. -/
def draw (r : Registry Handler) (draws : List Uuid) : Option ℕ :=
  drawUntaken (fun id => (r.handlers.get? id).isSome) draws.length draws

/-- The insertion at the end of `PythonOpRegistry::register`. -/
def insert (r : Registry Handler) (entry : Entry Handler) : Registry Handler :=
  { r with handlers := r.handlers.set entry.id entry }

/-- `PythonOpRegistry::expose`. -/
def expose (r : Registry Handler) (id : ℕ) : Registry Handler × Bool :=
  if (r.handlers.get? id).isNone then (r, false)
  else (⟨r.handlers, Insert.insert id r.exposed⟩, true)

/-- `PythonOpRegistry::revoke`. -/
def revoke (r : Registry Handler) (id : ℕ) : Registry Handler × Bool :=
  (⟨r.handlers.erase id, r.exposed.erase id⟩, (r.handlers.get? id).isSome)

/-- `PythonOpRegistry::get_exposed`. -/
def getExposed (r : Registry Handler) (id : ℕ) : Option (Entry Handler) :=
  if id ∉ r.exposed then none else r.handlers.get? id

end Registry

/-! ## Dispatch -/

/-- A number of the guest: every double is one of these. -/
inductive JsNumber where
  | nan
  | infinity (negative : Bool)
  | finite (value : ℚ)
  deriving DecidableEq

/-- `token_from_js`. -/
def tokenFromJs : JsNumber → Option ℕ
  | .nan => none
  | .infinity _ => none
  | .finite raw =>
    if raw.den ≠ 1 ∨ raw < 1 ∨ (maxOpToken : ℚ) < raw then none else some raw.num.toNat

/-- What a dispatch is refused with: `UNKNOWN_OP_ERROR`, or the error of the op
the guest called for an entry of the other mode. -/
inductive Refusal where
  | unknownOp
  | modeError
  deriving DecidableEq, Repr

/-- The entry a raw number leads to. -/
def resolve (r : Registry Handler) (raw : JsNumber) : Option (Entry Handler) :=
  (tokenFromJs raw).bind r.getExposed

/-- `lookup_entry`. -/
def lookupEntry (r : Registry Handler) (raw : JsNumber) (mode : Mode) :
    Except Refusal (Entry Handler) :=
  match resolve r raw with
  | none => .error .unknownOp
  | some entry => if entry.mode ≠ mode then .error .modeError else .ok entry

/-! ## The runner and its history -/

/-- A call of the registry that the runner made. -/
inductive Call (Handler : Type*) where
  | register (entry : Entry Handler)
  | expose (id : ℕ)
  | revoke (id : ℕ)
  deriving DecidableEq, Repr

/-- **The runner**: its registry, and the calls made of it so far, the oldest
first. The code keeps no such record; nothing here reads it. -/
structure Runner (Handler : Type*) where
  registry : Registry Handler
  calls : List (Call Handler)

namespace Runner

/-- A runner that has just started. -/
def new : Runner Handler := ⟨.new, []⟩

/-- `register_python_op`. -/
def register (s : Runner Handler) (draws : List Uuid) (name : Text) (mode : Mode)
    (handler : Handler) : Option (Runner Handler × ℕ) :=
  match s.registry.draw draws with
  | none => none
  | some id =>
    let entry := ⟨id, name, mode, handler⟩
    some (⟨s.registry.insert entry, s.calls ++ [.register entry]⟩, id)

/-- `set_python_op_exposure` with `true`. -/
def expose (s : Runner Handler) (id : ℕ) : Runner Handler :=
  ⟨(s.registry.expose id).1, s.calls ++ [.expose id]⟩

/-- `set_python_op_exposure` with `false`. -/
def revoke (s : Runner Handler) (id : ℕ) : Runner Handler :=
  ⟨(s.registry.revoke id).1, s.calls ++ [.revoke id]⟩

end Runner

/-- How `RuntimeCoreState::bind_object` ends. -/
inductive Install where
  /-- The runner refuses the command, -/
  | refused
  /-- the helper is missing, or a text or the assignments do not convert, -/
  | unprepared
  /-- the helper throws at one of the members, or is terminated, -/
  | threw
  | installed
  deriving DecidableEq, Repr

/-- `RuntimeCoreState::bind_object` on the tokens of its op members; `true` is
success. -/
def coreBindObject (s : Runner Handler) (opTokens : List ℕ) : Install → Runner Handler × Bool
  | .refused => (s, false)
  | .unprepared => (s, false)
  | .threw => (opTokens.foldl Runner.revoke s, false)
  | .installed => (opTokens.foldl Runner.expose s, true)

/-! ## The methods of `Runtime` -/

/-- A value of the dict given to `bind_object`. -/
inductive MemberValue (Handler : Type*) where
  /-- A callable: `mode` is what `detect_mode` says, `none` if it raises;
  `listed` says whether its token goes into the dict of tokens. -/
  | callable (handler : Handler) (mode : Option Mode) (draws : List Uuid) (served listed : Bool)
  | plain (converts : Bool)

/-- An entry of that dict; `key` is `none` where it is no `str`. -/
structure Member (Handler : Type*) where
  key : Option Text
  value : MemberValue Handler

/-- The loop of `Runtime.bind_object` over the members: the tokens registered so
far, and whether all the members went through. It ends at the first that fails. -/
def registerMembers (name : Text) :
    List (Member Handler) → Runner Handler → List ℕ → Option (Runner Handler × List ℕ × Bool)
  | [], s, registered => some (s, registered, true)
  | ⟨none, _⟩ :: _, s, registered => some (s, registered, false)
  | ⟨some _, .plain converts⟩ :: members, s, registered =>
    if converts then registerMembers name members s registered else some (s, registered, false)
  | ⟨some _, .callable _ none _ _ _⟩ :: _, s, registered => some (s, registered, false)
  | ⟨some key, .callable handler (some mode) draws served listed⟩ :: members, s, registered =>
    if served then
      match s.register draws (name ++ Wire.ascii "." ++ key) mode handler with
      | none => none
      | some (s, id) =>
        if listed then registerMembers name members s (registered ++ [id])
        else some (s, registered ++ [id], false)
    else some (s, registered, false)

/-- A method that registers, exposes, revokes or binds. -/
inductive Op (Handler : Type*) where
  /-- The runner's own commands. -/
  | register (draws : List Uuid) (name : Text) (mode : Mode) (handler : Handler)
  | expose (id : ℕ)
  | revoke (id : ℕ)
  /-- `Runtime.register_op`: `mode` is what `checked_mode` says, `none` if it
  raises, and `exposes` says whether the second command is served. -/
  | registerOp (draws : List Uuid) (name : Text) (mode : Option Mode) (handler : Handler)
      (served exposes : Bool)
  /-- `Runtime.bind_function`: `quoted` and `evaluates` say whether the name
  becomes a literal and the script runs, `last` whether the last command is served. -/
  | bindFunction (draws : List Uuid) (name : Text) (mode : Option Mode) (handler : Handler)
      (served quoted evaluates last : Bool)
  /-- `Runtime.bind_object`; `revokes` says which revocations are served. -/
  | bindObject (name : Text) (members : List (Member Handler)) (install : Install)
      (revokes : ℕ → Bool)

/-- How `register_op` and `bind_function` begin: the mode is found and the handler
registered, or the method raises with nothing done. -/
def registering (s : Runner Handler) (draws : List Uuid) (name : Text) (mode : Option Mode)
    (handler : Handler) (served : Bool) (next : Runner Handler → ℕ → Runner Handler × Bool) :
    Option (Runner Handler × Bool) :=
  match mode with
  | none => some (s, false)
  | some mode =>
    if served then (s.register draws name mode handler).map fun p => next p.1 p.2
    else some (s, false)

/-- **A method's run**: the runner after it, and whether it returned rather than
raised. `none` means that a token is still being drawn. -/
def perform (s : Runner Handler) : Op Handler → Option (Runner Handler × Bool)
  | .register draws name mode handler =>
    (s.register draws name mode handler).map fun p => (p.1, true)
  | .expose id => some (s.expose id, true)
  | .revoke id => some (s.revoke id, true)
  | .registerOp draws name mode handler served exposes =>
    registering s draws name mode handler served fun s id =>
      if exposes then (s.expose id, true) else (s, false)
  | .bindFunction draws name mode handler served quoted evaluates last =>
    registering s draws name mode handler served fun s id =>
      if !quoted then (s, false)
      else if !evaluates then (if last then s.revoke id else s, false)
      else if last then (s.expose id, true) else (s, false)
  | .bindObject name members install revokes =>
    match registerMembers name members s [] with
    | none => none
    | some (s, registered, complete) =>
      let bound := if complete then coreBindObject s registered install else (s, false)
      if bound.2 then some bound
      else some ((registered.filter revokes).foldl Runner.revoke bound.1, false)

/-- A run of methods, one after the other. -/
def run (s : Runner Handler) : List (Op Handler) → Option (Runner Handler)
  | [] => some s
  | op :: ops => (perform s op).bind fun p => run p.1 ops

end Pydeno.Runtime.Ops
