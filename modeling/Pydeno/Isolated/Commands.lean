import Pydeno.Isolated.Replies
import Pydeno.Wire.Helpers.Writer
/-!
# How a command ends

Whatever the worker sends, a command ends in one of three ways: with the value
of a result frame that carries its id, with the remote error of an error frame
that carries its id, or with an exception after the worker has been killed and
the session closed. The pump lets `WorkerCrashed` and `RuntimeTimeout` through
without a kill, as verdicts "already acted on"; `Verdict` marks them, and
`Ruled` says that they were. The one way round is an exception that a host
function's own error raises while its message is read (`Readable`).
-/

namespace Pydeno.Isolated

open Ending Reply List

open Wire (ascii Obj getItem)

/-! ## Verdicts -/

/-- The exceptions the pump lets through as they are. -/
def Exc.isVerdict (e : Exc) : Bool := e.isA .workerCrashed || e.isA .runtimeTimeout

/-- The worker has been killed and the session closed. -/
def World.Dead (w : World) : Prop := w.rt.closed = true ∧ w.rt.killed = true

theorem World.dead_kill (w : World) : w.kill.Dead := ⟨rfl, rfl⟩

/-- A verdict is raised only once the worker is dead. -/
def Ruled {α : Type} (r : Except Exc α × World) : Prop :=
  ∀ e, r.1 = .error e → e.isVerdict = true → r.2.Dead

theorem ruled_ok {α : Type} (a : α) (w : World) : Ruled ((.ok a : Except Exc α), w) := by
  intro e h
  cases h

theorem ruled_dead {α : Type} {r : Except Exc α × World} (h : r.2.Dead) : Ruled r :=
  fun _ _ _ => h

theorem ruled_of_not_verdict {α : Type} {r : Except Exc α × World}
    (h : ∀ x, r.1 = .error x → x.isVerdict = false) : Ruled r := by
  intro x hx hv
  rw [h x hx] at hv
  cases hv

theorem ruled_error {α : Type} {e : Exc} (h : e.isVerdict = false) (w : World) :
    Ruled ((.error e : Except Exc α), w) :=
  ruled_of_not_verdict fun _ he => Except.error.inj he ▸ h

/-- What a part raises, the whole raises. -/
theorem Ruled.passes {α β : Type} {r : Except Exc α × World} {e : Exc} {w : World} (h : Ruled r)
    (hr : r = (.error e, w)) : Ruled ((.error e : Except Exc β), w) := by
  subst hr
  exact fun x hx hv => h e rfl (Except.error.inj hx ▸ hv)

/-- An exception that is no `Exception` is no verdict. -/
theorem not_verdict_of_not_exception {e : Exc} (h : e.isException = false) : e.isVerdict = false := by
  simp only [Exc.isException, Bool.or_eq_false_iff, Bool.not_eq_false', List.isEmpty_iff] at h
  simp [Exc.isVerdict, Exc.isA, h.2]

/-! ## Exceptions the host has to describe -/

/-- Describing the exception to the guest raises no verdict. -/
def Describable (redact : Redaction) (e : Exc) : Prop :=
  ∀ cid x, errorReply redact cid e = .error x → x.isVerdict = false

/-- The exceptions walking a value may leave the host to describe: the value's
own, and what reading that one's message raises. -/
def Walk.described : Walk → List Exc
  | .raises e => e :: (match e.text with | .error x => [x] | .ok _ => [])
  | _ => []

def Behaviour.walked : Behaviour → List Exc
  | .returns walk => walk.described
  | .raises _ => []

/-- The exceptions a call may leave the pump's thread to describe. -/
def CallEnv.described (env : CallEnv) : List Exc :=
  env.behaviour.walked ++ (match env.behaviour with | .raises e => [e] | .returns _ => []) ++
    (match env.thread with | .ended b => b.walked | _ => []) ++ env.schedule.toList

/-- **Everything a call leaves to describe can be described.** -/
def Readable (o : Options) (env : CallEnv) : Prop :=
  ∀ e ∈ env.described, Describable o.redact e

variable {redact : Redaction}

/-- An exception with a plain message can be described. -/
theorem describable_of_plain {e : Exc} {p : Bool} {text : List ℕ}
    (hpub : e.pub = .ok p) (htext : e.text = .ok text) : Describable redact e := by
  intro cid x h
  simp only [errorReply, hpub, htext] at h
  split at h
  next y hy =>
    obtain rfl := Except.error.inj h
    -- only the hook can have raised, and not an `Exception`
    split at hy
    · unfold Redaction.exposes at hy
      split at hy
      · cases hy
      split at hy
      · cases hy
      split at hy
      · cases hy
      rename_i hexc
      obtain rfl : _ = y := by simpa [Except.map] using hy
      exact not_verdict_of_not_exception (by simpa using hexc)
    · cases hy
  · split at h
    next hy =>
      split at hy <;> cases hy
    · cases h

theorem describable_wireError (text : List ℕ) : Describable redact (wireError text) :=
  describable_of_plain rfl rfl

theorem describable_builtin (name text : String) : Describable redact (builtin name text) :=
  describable_of_plain rfl rfl

/-! ## Sending -/

/-- An error frame fails only by its size. -/
theorem dumps_error_eq_error {cid : ℤ} {err etype : List ℕ} {e : Exc}
    (h : dumps (.error cid err etype) = .error e) : ∃ text, e = wireError text := by
  unfold dumps at h
  split at h
  · cases h
  · cases h
    exact ⟨_, rfl⟩
  next x hx =>
    rcases Wire.wireDumps_eq_error hx with ⟨text, htext⟩ | ⟨k, walk, at_, hmem, -⟩
    · cases htext
    simp [message] at hmem

/-- What a value frame fails by: the encoder's refusal, an exception of the
value's own, what reading that one's message raises, or an interruption. -/
theorem dumps_value_eq_error {cid : ℤ} {walk : Walk} {e : Exc}
    (h : dumps (.value cid walk) = .error e) :
    (∃ text, e = wireError text) ∨ e ∈ walk.described ∨ e.isException = false := by
  unfold dumps at h
  split at h
  · cases h
  · cases h
    exact .inl ⟨_, rfl⟩
  next x hx =>
    have hwalk : walk = .raises x := by
      rcases Wire.wireDumps_eq_error hx with ⟨text, htext⟩ | ⟨k, walk', at_, hmem, hw⟩
      · cases htext
      obtain ⟨-, rfl⟩ : k = ascii "v" ∧ walk' = walk := by simpa [message] using hmem
      cases walk' with
      | writes payload | refuses text => cases hw
      | raises y =>
        obtain rfl : y = x := by simpa [encodedWalk] using hw
        rfl
    subst hwalk
    split at h
    · cases h
      exact .inr (.inl (by simp [Walk.described]))
    · split at h
      · split at h
        · cases h
          exact .inl ⟨_, rfl⟩
        next y hy =>
          cases h
          exact .inr (.inl (by simp [Walk.described, hy]))
      next hexc =>
        cases h
        exact .inr (.inr (by simpa using hexc))

/-- The exceptions a reply may leave to describe. -/
def Reply.described : Reply → List Exc
  | .value _ walk => walk.described
  | .error _ _ _ => []

section

variable {o : Options} {env : CallEnv} {w : World}
variable {cid : ℤ} {e : Exc} {reply : Reply} {onPump : Bool}

/-- An error frame raises no verdict. -/
theorem send_error_ruled {err etype : List ℕ} {pipe : Pipe}
    (h : (send (.error cid err etype) pipe w).1 = .error e) : e.isVerdict = false := by
  unfold send at h
  split at h
  next x hx =>
    obtain ⟨text, rfl⟩ := dumps_error_eq_error hx
    cases h
    rfl
  · cases pipe with
    | takes => cases h
    | stalls | broken =>
      cases h
      rfl

theorem errorReply_isError {redact : Redaction} (h : errorReply redact cid e = .ok reply) :
    ∃ err etype, reply = .error cid err etype := by
  simp only [errorReply] at h
  split at h
  · cases h
  split at h
  · cases h
  split at h
  · cases h
  cases h
  exact ⟨_, _, rfl⟩

theorem sendError_ruled {x : Exc} {pipe : Pipe} (hd : Describable o.redact e)
    (h : (sendError o cid e pipe w).1 = .error x) : x.isVerdict = false := by
  unfold sendError at h
  split at h
  next y hy =>
    cases h
    exact hd cid _ hy
  next reply hr =>
    obtain ⟨err, etype, rfl⟩ := errorReply_isError hr
    exact send_error_ruled h

section

variable (hd : ∀ x ∈ reply.described, Describable o.redact x)
include hd

/-- What the first frame fails by can be described, or is not described at all:
a failure of the pipe, or an interruption. -/
theorem send_describable {pipe : Pipe} (h : (send reply pipe w).1 = .error e) :
    Describable o.redact e ∨
      (e.isA .wireError = false ∧ (e.isA .osError = true ∨ e.isException = false)) := by
  unfold send at h
  split at h
  next x hx =>
    cases h
    cases reply with
    | error cid err etype =>
      obtain ⟨text, rfl⟩ := dumps_error_eq_error hx
      exact .inl (describable_wireError text)
    | value cid walk =>
      rcases dumps_value_eq_error hx with ⟨text, rfl⟩ | hmem | hexc
      · exact .inl (describable_wireError text)
      · exact .inl (hd _ hmem)
      · refine .inr ⟨?_, .inr hexc⟩
        simp only [Exc.isException, Bool.or_eq_false_iff, Bool.not_eq_false', List.isEmpty_iff] at hexc
        simp [Exc.isA, hexc.2]
  · cases pipe with
    | takes => cases h
    | stalls | broken =>
      cases h
      exact .inr ⟨rfl, .inl rfl⟩

/-- What escapes the inner `try` is no verdict, or an `OSError`, which the
outer one drops. -/
theorem trySend_ruled
    (h : (trySend o reply env w).1 = .error e) : e.isVerdict = false ∨ e.isA .osError = true := by
  unfold trySend at h
  split at h
  · cases h
  rename_i x w' hs
  have hx := send_describable hd (congrArg Prod.fst hs)
  split_ifs at h with hwire hos hexc
  · rcases hx with hx | ⟨hno, -⟩
    · exact .inl (sendError_ruled hx h)
    · rw [hwire] at hno
      cases hno
  · cases h
    exact .inr hos
  · rcases hx with hx | ⟨-, hos' | hexc'⟩
    · exact .inl (sendError_ruled hx h)
    · exact absurd hos' hos
    · rw [hexc] at hexc'
      cases hexc'
  · cases h
    exact .inl (not_verdict_of_not_exception (by simpa using hexc))

/-- `_send_reply` raises no verdict. -/
theorem sendReply_ruled
    (h : (sendReply o reply onPump env w).1 = .error e) : e.isVerdict = false := by
  simp only [sendReply] at h
  split at h
  · cases h
  split at h
  · cases h
  rename_i x w' hs
  split_ifs at h with hstalled hos
  cases h
  rcases trySend_ruled hd (congrArg Prod.fst hs) with hv | hos'
  · exact hv
  · exact absurd hos' hos

end

theorem replyError_ruled {x : Exc} (hd : Describable o.redact e)
    (h : (replyError o cid e onPump env w).1 = .error x) : x.isVerdict = false := by
  unfold replyError at h
  split at h
  next y hy =>
    cases h
    exact hd cid _ hy
  next reply hr =>
    obtain ⟨err, etype, rfl⟩ := errorReply_isError hr
    exact sendReply_ruled (by simp [described]) h

/-- Nothing is sent on a dead session, and it stays dead. -/
theorem sendReply_dead (h : w.Dead) : (sendReply o reply onPump env w).2.Dead := by
  simp only [sendReply, h.1, if_true]
  split <;> exact h

theorem replyError_dead (h : w.Dead) : (replyError o cid e onPump env w).2.Dead := by
  unfold replyError
  split
  · exact h
  · exact sendReply_dead h

end

/-! ## Handlers -/

section

variable {o : Options} {env : CallEnv} {w : World} {entry : Entry} {cid : ℤ} {onPump : Bool}

theorem dead_accept (h : w.Dead) : (w.accept entry).Dead := by
  unfold World.accept
  split <;> exact h

theorem dead_act {watch : Option Watch} (h : w.Dead) : (Watch.act watch w).Dead := by
  unfold Watch.act
  split
  · exact h
  · exact w.dead_kill

section

variable (h : Readable o env)
include h

/-- What a call's behaviour leaves to describe on the pump's thread. -/
theorem Readable.raised {e : Exc} (he : env.behaviour = .raises e) : Describable o.redact e :=
  h e (by simp [CallEnv.described, he])

theorem Readable.walked {walk : Walk} (hw : env.behaviour = .returns walk) :
    ∀ x ∈ walk.described, Describable o.redact x := by
  intro x hx
  exact h x (by simp [CallEnv.described, hw, Behaviour.walked, hx])

theorem Readable.ended {b : Behaviour} (hb : env.thread = .ended b) :
    ∀ x ∈ b.walked, Describable o.redact x := by
  intro x hx
  exact h x (by simp [CallEnv.described, hb, hx])

theorem runSyncHandler_ruled {x : Exc}
    (hx : (runSyncHandler o entry cid onPump env w).1 = .error x) : x.isVerdict = false := by
  simp only [runSyncHandler] at hx
  split at hx
  next walk hb =>
    refine sendReply_ruled ?_ hx
    intro y hy
    cases hid : entry.hid with
    | none => simp [Entry.behaviour, hid] at hb
    | some hid' =>
      simp only [Entry.behaviour, hid] at hb
      exact h.walked hb y hy
  next e hb =>
    split at hx
    · refine replyError_ruled ?_ hx
      cases hid : entry.hid with
      | none =>
        simp only [Entry.behaviour, hid] at hb
        obtain rfl := Behaviour.raises.inj hb
        exact describable_of_plain rfl rfl
      | some hid' =>
        simp only [Entry.behaviour, hid] at hb
        exact h.raised hb
    next hexc =>
      cases hx
      exact not_verdict_of_not_exception (by simpa using hexc)

end

theorem runSyncHandler_dead (h : w.Dead) : (runSyncHandler o entry cid onPump env w).2.Dead := by
  simp only [runSyncHandler]
  split
  · exact sendReply_dead (dead_accept h)
  · split
    · exact replyError_dead (dead_accept h)
    · exact dead_accept h

/-- What a thread leaves in the box leaves nothing worse to describe. -/
theorem boxed_described {b : Behaviour} {reply : Reply} (h : boxed o cid b = some reply) :
    ∀ x ∈ reply.described, x ∈ b.walked := by
  cases b with
  | returns walk =>
    obtain rfl : value cid walk = reply := by simpa [boxed] using h
    exact fun x hx => hx
  | raises e =>
    simp only [boxed] at h
    split at h
    · cases hr : errorReply o.redact cid e with
      | error y => simp [hr, Except.toOption] at h
      | ok r =>
        obtain rfl : r = reply := by simpa [hr, Except.toOption] using h
        obtain ⟨err, etype, rfl⟩ := errorReply_isError hr
        simp [described]
    · cases h

theorem runTimedHandler_ruled (h : Readable o env) {limit : ℚ} :
    Ruled (runTimedHandler o entry cid onPump limit env w) := by
  unfold runTimedHandler
  split
  · exact ruled_of_not_verdict fun _ => replyError_ruled (describable_builtin _ _)
  next b hthread =>
    simp only
    split
    next reply hbox =>
      have hd : ∀ y ∈ reply.described, Describable o.redact y := by
        intro y hy
        have hy' := boxed_described hbox y hy
        cases hid : entry.hid with
        | none => simp [Entry.behaviour, hid, Behaviour.walked] at hy'
        | some hid' =>
          simp only [Entry.behaviour, hid] at hy'
          exact h.ended hthread y hy'
      exact ruled_of_not_verdict fun _ => sendReply_ruled hd
    · exact ruled_error rfl _
  · simp only
    split
    · -- over the cap: the worker is killed before anything is sent
      have hdead : (replyError o cid toolTimeoutError onPump env (w.accept entry).kill).2.Dead :=
        replyError_dead (w.accept entry).dead_kill
      split
      next e w' hr =>
        rw [hr] at hdead
        exact ruled_dead hdead
      next w' hr =>
        rw [hr] at hdead
        exact ruled_dead hdead
    · exact ruled_of_not_verdict fun _ => replyError_ruled (describable_of_plain rfl rfl)

theorem runTimedHandler_dead (h : w.Dead) {limit : ℚ} :
    (runTimedHandler o entry cid onPump limit env w).2.Dead := by
  unfold runTimedHandler
  split
  · exact replyError_dead h
  · simp only
    split
    · exact sendReply_dead (dead_accept h)
    · exact dead_accept h
  · simp only
    split
    · have hdead : (replyError o cid toolTimeoutError onPump env (w.accept entry).kill).2.Dead :=
        replyError_dead (w.accept entry).dead_kill
      split
      next e w' hr =>
        rw [hr] at hdead
        exact hdead
      next w' hr =>
        rw [hr] at hdead
        exact hdead
    · exact replyError_dead (dead_accept h)

/-- A handler's run under the watchdog, whose own verdict has killed the worker. -/
theorem ruled_watched {inner : Step Unit} (hruled : ∀ v, Ruled (inner v))
    (hdead : ∀ v, v.Dead → (inner v).2.Dead) :
    Ruled (
      let v := if env.watchFirst then Watch.act env.watch w else w
      let u := if env.watchFirst then (inner v).2 else Watch.act env.watch (inner v).2
      match (inner v).1, env.watch with
      | .error e, _ => (.error e, u)
      | .ok (), some (.timedOut text) => (.error (runtimeTimeout text), u)
      | .ok (), _ => (.ok (), u)) := by
  simp only
  split
  next e he =>
    intro x hx hv
    cases hx
    have hd := hruled _ _ he hv
    simp only
    split
    next hfirst =>
      rw [if_pos hfirst] at hd
      exact hd
    next hfirst =>
      rw [if_neg hfirst] at hd
      exact dead_act hd
  next text hwatch =>
    refine ruled_dead ?_
    simp only
    have hact : ∀ v, (Watch.act env.watch v).Dead := by
      intro v
      rw [hwatch]
      exact v.dead_kill
    split
    · exact hdead _ (hact _)
    · exact hact _
  · exact ruled_ok _ _

/-- **`_run_watched` raises a verdict only on a dead session.** -/
theorem runWatched_ruled (h : Readable o env) {limit : Option ℚ} :
    Ruled (runWatched o entry cid onPump limit env w) := by
  cases limit with
  | none =>
    have hruled : ∀ v, Ruled (runSyncHandler o entry cid onPump env v) :=
      fun _ => ruled_of_not_verdict fun _ => runSyncHandler_ruled h
    exact ruled_watched hruled fun _ => runSyncHandler_dead
  | some limit =>
    have hruled : ∀ v, Ruled (runTimedHandler o entry cid onPump limit env v) :=
      fun _ => runTimedHandler_ruled h
    exact ruled_watched hruled fun _ hv => runTimedHandler_dead hv

/-! ## Call frames -/

theorem toolCall_ruled (h : Readable o env) {loop : Bool} {hid : Obj} :
    Ruled (toolCall o loop hid entry cid env w) := by
  simp only [toolCall]
  split
  · exact ruled_of_not_verdict fun _ => sendReply_ruled (by simp [inflightReply, described])
  · split
    · split
      · exact ruled_ok _ _
      next e he =>
        exact ruled_of_not_verdict fun _ => replyError_ruled (h e (by simp [CallEnv.described, he]))
    · exact runWatched_ruled h

theorem inRevoked_not_verdict {hid : Obj} {revoked : List ℕ} {x : Exc}
    (h : inRevoked hid revoked = .error x) : x.isVerdict = false := by
  unfold inRevoked at h
  split at h
  · cases h
    rfl
  · cases h
    rfl
  · cases h

theorem lookup_not_verdict {hid : Obj} {rt : Runtime} {x : Exc} (h : lookup hid rt = .error x) :
    x.isVerdict = false := by
  unfold lookup at h
  split at h
  · cases h
  cases hr : inRevoked hid rt.revokedHids with
  | ok b => simp [hr, Except.map] at h
  | error y =>
    obtain rfl : y = x := by simpa [hr, Except.map] using h
    exact inRevoked_not_verdict hr

/-- **A call frame raises a verdict only on a dead session.** -/
theorem onCall_ruled {Date : Type} (h : Readable o env) {loop : Bool} {message : Message Date} :
    Ruled (onCall o loop message env w) := by
  simp only [onCall]
  split
  next e he =>
    exact ruled_error (lookup_not_verdict he) _
  · split
    · split
      · exact runWatched_ruled h
      · split
        · exact ruled_error rfl _
        · exact toolCall_ruled h
    · exact ruled_error rfl _

end

/-! ## The loop -/

section

variable {o : Options} {w : World}

theorem checkMemory_cases (usage : Usage) :
    (checkMemory o usage w).2 = w ∧ (∃ cpu, (checkMemory o usage w).1 = .ok cpu) ∨
      (checkMemory o usage w).2 = w.kill := by
  unfold checkMemory
  split
  · exact .inr rfl
  · split
    · split
      · exact .inr rfl
      · exact .inl ⟨rfl, _, rfl⟩
    · exact .inl ⟨rfl, _, rfl⟩

theorem checkMemory_ruled (usage : Usage) : Ruled (checkMemory o usage w) := by
  rcases checkMemory_cases (o := o) (w := w) usage with ⟨-, cpu, h⟩ | h
  · intro e he
    rw [h] at he
    cases he
  · exact ruled_dead (by rw [h]; exact w.dead_kill)

theorem supervise_ruled (look : Look) : Ruled (supervise o look w) := by
  unfold supervise
  split
  · exact ruled_dead w.dead_kill
  · split
    · exact ruled_dead w.dead_kill
    · have hmem := checkMemory_ruled (o := o) (w := w) look.usage
      split
      next e w' hc =>
        exact hmem.passes hc
      · split
        · split
          · exact ruled_dead (World.dead_kill _)
          · exact ruled_ok _ _
        · exact ruled_ok _ _

variable (py : Wire.Python) (repr : List ℕ → String) (unsafeText : ℕ → Bool)

/-- The turn brought a call frame. -/
def Calling (t : Turn) : Prop :=
  ∃ data message, t.read = .payload data ∧ Wire.loadsDecoded py data = .ok message ∧
    messageKind message = ascii "call"

theorem onMessage_ruled {loop : Bool} {cmd : ℕ} {t : Turn} {message : Message py.Date}
    (h : messageKind message = ascii "call" → Readable o t.call) :
    Ruled (onMessage py repr unsafeText o loop cmd t message w) := by
  unfold onMessage
  split
  next hkind =>
    have hcall : Ruled (onCall o loop message t.call w) := onCall_ruled (h hkind)
    split
    next e w' hc =>
      exact hcall.passes hc
    · exact ruled_ok _ _
  · split
    · have hmem := checkMemory_ruled (o := o) (w := w) t.usage
      split
      next e w' hc =>
        exact hmem.passes hc
      · split <;> exact ruled_ok _ _
    · exact ruled_error rfl _

/-- **One pass of the loop raises a verdict only on a dead session.** -/
theorem pumpBody_ruled {loop : Bool} {cmd : ℕ} {t : Turn}
    (h : Calling py t → Readable o t.call) :
    Ruled (pumpBody py repr unsafeText o loop cmd t w) := by
  have hlook := supervise_ruled (o := o) (w := w) t.look
  have hdue : Ruled (if t.due then supervise o t.look w else (.ok (), w)) := by
    split
    · exact hlook
    · exact ruled_ok _ _
  unfold pumpBody
  split
  · split
    next e w' hs =>
      exact hlook.passes hs
    · exact ruled_ok _ _
  · exact ruled_error rfl _
  · exact ruled_error rfl _
  · exact ruled_error rfl _
  · split
    next e w' hs =>
      exact hdue.passes hs
    · exact ruled_dead (World.dead_kill _)
  next data hread =>
    split
    next e w' hs =>
      exact hdue.passes hs
    · split
      · exact ruled_error rfl _
      next message hmsg =>
        exact onMessage_ruled py repr unsafeText fun hkind => h ⟨data, message, hread, hmsg, hkind⟩

/-- After the `except` clauses the session is dead. -/
theorem pumpExcept_dead {e : Exc} (h : e.isVerdict = true → w.Dead) :
    (pumpExcept unsafeText e w).2.Dead := by
  unfold pumpExcept
  split
  next hv =>
    exact h hv
  · split_ifs <;> exact w.dead_kill

/-! ## What a command's ending tells -/

/-- The turn brought nothing, or a call frame. -/
def Passes (t : Turn) : Prop := t.read = .timeout ∨ Calling py t

/-- The turn brought a message of the given kind with the command's id. -/
def Brings (cmd : ℕ) (kind : String) (t : Turn) (message : Message py.Date) : Prop :=
  ∃ data, t.read = .payload data ∧ Wire.loadsDecoded py data = .ok message ∧
    messageKind message = ascii kind ∧ eqInt (plainField "id" message) cmd = true

/-- **A sound ending**: a value or a remote error is the one of the first frame
that was no call, which carries the command's id; any other exception leaves
the worker killed and the session closed. -/
inductive Ending.Sound (cmd : ℕ) (turns : List Turn) : Ending py.Date → Prop where
  | running (w : World) : Sound cmd turns (.running w)
  | returned (w : World) {before after : List Turn} {t : Turn} {message : Message py.Date}
      (split : turns = before ++ t :: after) (calls : ∀ s ∈ before, Passes py s)
      (result : Brings py cmd "result" t message) :
      Sound cmd turns (.returned (getItem (ascii "v") message) w)
  | remote (w : World) {before after : List Turn} {t : Turn} {message : Message py.Date}
      (split : turns = before ++ t :: after) (calls : ∀ s ∈ before, Passes py s)
      (error : Brings py cmd "error" t message) :
      Sound cmd turns (.remote (remoteError unsafeText message) w)
  | raised (e : Exc) {w : World} (closed : w.rt.closed = true) (killed : w.rt.killed = true) :
      Sound cmd turns (.raised e w)

/-- What a pass of the loop can come to without raising. -/
theorem pumpBody_ok {loop : Bool} {cmd : ℕ} {t : Turn} {a : Answer py.Date} {w' : World}
    (h : pumpBody py repr unsafeText o loop cmd t w = (.ok a, w')) :
    match a with
    | .goOn => Passes py t
    | .value v => ∃ message, Brings py cmd "result" t message ∧ v = getItem (ascii "v") message
    | .remote r => ∃ message, Brings py cmd "error" t message ∧ r = remoteError unsafeText message := by
  unfold pumpBody at h
  split at h
  next hread =>
    split at h
    · cases h
    obtain ⟨rfl, -⟩ : Answer.goOn = a ∧ _ := by simpa using h
    exact .inl hread
  · cases h
  · cases h
  · cases h
  · split at h <;> cases h
  next data hread =>
    split at h
    · cases h
    split at h
    · cases h
    rename_i message hmsg
    unfold onMessage at h
    split at h
    next hkind =>
      split at h
      · cases h
      obtain ⟨rfl, -⟩ : Answer.goOn = a ∧ _ := by simpa using h
      exact .inr ⟨data, message, hread, hmsg, hkind⟩
    · split at h
      next hans =>
        simp only [answers, Bool.and_eq_true, Bool.or_eq_true, decide_eq_true_eq] at hans
        split at h
        · cases h
        split at h
        next hkind =>
          obtain ⟨rfl, -⟩ : Answer.value (getItem (ascii "v") message) = a ∧ _ := by
            simpa using h
          exact ⟨message, ⟨data, hread, hmsg, hkind, hans.2⟩, rfl⟩
        next hkind =>
          obtain ⟨rfl, -⟩ : Answer.remote (remoteError unsafeText message) = a ∧ _ := by
            simpa using h
          exact ⟨message, ⟨data, hread, hmsg, hans.1.resolve_left hkind, hans.2⟩, rfl⟩
      · cases h

/-- A turn that passes may be put in front of a sound ending. -/
theorem Ending.Sound.cons {cmd : ℕ} {t : Turn} {turns : List Turn} {ending : Ending py.Date}
    (ht : Passes py t) (h : ending.Sound py unsafeText cmd turns) :
    ending.Sound py unsafeText cmd (t :: turns) := by
  have hall : ∀ {before : List Turn}, (∀ s ∈ before, Passes py s) →
      ∀ s ∈ t :: before, Passes py s := by
    intro before hb s hs
    rcases mem_cons.1 hs with rfl | hs
    · exact ht
    · exact hb s hs
  cases h with
  | running w => exact .running w
  | returned w hsplit hcalls hresult =>
    exact .returned w (by rw [hsplit]; rfl) (hall hcalls) hresult
  | remote w hsplit hcalls herror =>
    exact .remote w (by rw [hsplit]; rfl) (hall hcalls) herror
  | raised e hclosed hkilled => exact .raised e hclosed hkilled

/-- **Every command ends soundly**, whatever the worker sends and whatever else
happens, as long as what its host functions raise can be described. -/
theorem pump_sound (o : Options) (loop : Bool) (cmd : ℕ) (turns : List Turn) (w : World)
    (h : ∀ t ∈ turns, Calling py t → Readable o t.call) :
    (pump py repr unsafeText o loop cmd turns w).Sound py unsafeText cmd turns := by
  induction turns generalizing w with
  | nil => exact .running w
  | cons t turns ih =>
    have hruled : Ruled (pumpBody py repr unsafeText o loop cmd t w) :=
      pumpBody_ruled py repr unsafeText (h t (by simp))
    unfold pump
    split
    next w' hb =>
      exact (ih w' fun s hs => h s (by simp [hs])).cons py unsafeText
        (pumpBody_ok py repr unsafeText hb)
    next v w' hb =>
      obtain ⟨message, hbrings, rfl⟩ := pumpBody_ok py repr unsafeText hb
      exact .returned w' (nil_append _).symm (by simp) hbrings
    next r w' hb =>
      obtain ⟨message, hbrings, rfl⟩ := pumpBody_ok py repr unsafeText hb
      exact .remote w' (nil_append _).symm (by simp) hbrings
    next e w' hb =>
      rw [hb] at hruled
      obtain ⟨hclosed, hkilled⟩ := pumpExcept_dead unsafeText (hruled e rfl)
      exact .raised _ hclosed hkilled

end

/-! ## A verdict nobody acted on -/

namespace Unreadable

/-- A Python without dates, big integers or base64; the frame below needs
none. -/
def python : Wire.Python where
  Date := Unit
  dateEq := fun _ _ => true
  int := fun _ => none
  b64decode := fun _ => none
  fromisoformat := fun _ => none
  hash := fun _ => 0

/-- An exception whose `__str__` raises `RuntimeTimeout`. -/
def timeoutError : Exc :=
  .mk ⟨[], true⟩ (ascii "BrokenError") (.ok false)
    (.error (runtimeTimeout (ascii "another runtime timed out")))

/-- A turn that brings a frame; nothing else happens. -/
def turn (frame : String) (b : Behaviour) : Turn where
  read := .payload (ascii frame)
  due := false
  look := ⟨10, ⟨none, none, none⟩⟩
  usage := ⟨none, none, none⟩
  call := env b

/-- An exception like any other. -/
def plainError : Exc := builtin "KeyError" "missing"

/-- A call of the one host function, which fails. -/
def callTurn (e : Exc) : Turn :=
  turn "\x7b\"t\":\"call\",\"cid\":1,\"hid\":1,\"args\":[]\x7d" (.raises e)

/-- The answer to the command 3. -/
def resultTurn : Turn :=
  turn "\x7b\"t\":\"result\",\"id\":3,\"v\":7\x7d" (.returns (.writes []))

end Unreadable

/-- The command raised something and the session is still open. -/
def Ending.raisedOpen {Date : Type} : Ending Date → Bool
  | .raised _ w => !w.rt.closed
  | _ => false

theorem not_sound_of_raisedOpen {py : Wire.Python} {unsafeText : ℕ → Bool} {cmd : ℕ}
    {turns : List Turn} {ending : Ending py.Date} (h : ending.raisedOpen = true) :
    ¬ ending.Sound py unsafeText cmd turns := by
  intro hs
  cases hs with
  | raised e hclosed hkilled => simp [raisedOpen, hclosed] at h
  | running w | returned w hsplit hcalls hresult | remote w hsplit hcalls herror => cases h

/-- A host function whose error raises `RuntimeTimeout` when its message is
read: the command raises it, and the worker is alive and the session open. -/
theorem pump_not_sound :
    ¬ (pump Unreadable.python (fun _ => "") (fun _ => false) Unreadable.options false 3
      [Unreadable.callTurn Unreadable.timeoutError] Unreadable.world).Sound Unreadable.python
      (fun _ => false) 3 [Unreadable.callTurn Unreadable.timeoutError] :=
  not_sound_of_raisedOpen (by decide +kernel)

/-- A host function raises an error that can be read; then comes the result frame
with the command's id. -/
theorem pump_sound_result :
    (pump Unreadable.python (fun _ => "") (fun _ => false) Unreadable.options false 3
      [Unreadable.callTurn Unreadable.plainError, Unreadable.resultTurn] Unreadable.world).Sound
      Unreadable.python (fun _ => false) 3
      [Unreadable.callTurn Unreadable.plainError, Unreadable.resultTurn] := by
  refine pump_sound Unreadable.python (fun _ => "") (fun _ => false) Unreadable.options false 3 _
    Unreadable.world fun t ht _ e he => ?_
  rcases mem_cons.1 ht with rfl | ht
  · obtain rfl : e = Unreadable.plainError := by
      simpa [CallEnv.described, Behaviour.walked, Unreadable.callTurn, Unreadable.turn,
        Unreadable.env] using he
    exact describable_of_plain rfl rfl
  · obtain rfl := mem_singleton.1 ht
    cases he

end Pydeno.Isolated
