import Pydeno.Isolated.Model.Command
/-!
# One reply for every host call

A host function's failure is meant to be the guest's: the call gets one reply
frame, the pump's count of outstanding calls goes back to what it was, and the
worker lives. That holds exactly where the reply can be built and framed
(`Answerable`). Building it reads the message of the function's exception, and
nothing catches what that reading raises: on the pump's thread it reaches the
pump's own `except` clauses, which blame and kill the worker; on the event loop
it is lost in a callback.
-/

namespace Pydeno.Isolated

open Wire (ascii Obj getItem)

/-! ## When a reply can be sent -/

/-- The reply is framed, or its failure is and is told instead. An exception
that is an `OSError` counts as a broken pipe and is dropped. -/
def Framed (o : Options) (reply : Reply) : Prop :=
  (∃ payload, dumps reply = .ok payload) ∨
  ∃ e, dumps reply = .error e ∧ (e.isA .wireError || (!e.isA .osError && e.isException)) = true ∧
    ∃ reply', errorReply o.redact reply.cid e = .ok reply' ∧ ∃ payload, dumps reply' = .ok payload

/-- **When a call is answered**: what the function left behind can be told
(`boxed`) and framed. -/
def Answerable (o : Options) (cid : ℤ) (b : Behaviour) : Prop :=
  ∃ reply, boxed o cid b = some reply ∧ Framed o reply

theorem errorReply_cid {redact : Redaction} {cid : ℤ} {e : Exc} {reply : Reply}
    (h : errorReply redact cid e = .ok reply) : reply.cid = cid := by
  simp only [errorReply] at h
  split at h
  · cases h
  · split at h
    · cases h
    · split at h
      · cases h
      · obtain rfl := Except.ok.inj h
        rfl

theorem boxed_cid {o : Options} {cid : ℤ} {b : Behaviour} {reply : Reply}
    (h : boxed o cid b = some reply) : reply.cid = cid := by
  cases b with
  | returns walk =>
    obtain rfl : Reply.value cid walk = reply := by simpa [boxed] using h
    rfl
  | raises e =>
    simp only [boxed] at h
    split at h
    · cases he : errorReply o.redact cid e with
      | error x => simp [he, Except.toOption] at h
      | ok r =>
        obtain rfl : r = reply := by simpa [he, Except.toOption] using h
        exact errorReply_cid he
    · cases h

/-! ## Sending -/

section

variable {o : Options} {env : CallEnv} {w : World}

/-- The pipe takes both frames `_send_reply` may send. -/
def PipeTakes (env : CallEnv) : Prop := env.pipe = .takes ∧ env.pipe2 = .takes

theorem send_takes (w : World) (reply : Reply) :
    (∃ payload, dumps reply = .ok payload) ∧ send reply .takes w =
        (.ok (), { w with rt := { w.rt with written := w.rt.written ++ [reply] } }) ∨
      ∃ e, dumps reply = .error e ∧ send reply .takes w = (.error e, w) := by
  cases h : dumps reply with
  | ok payload => exact .inl ⟨⟨payload, rfl⟩, by simp [send, h]⟩
  | error e => exact .inr ⟨e, rfl, by simp [send, h]⟩

variable (hpipe : PipeTakes env)
include hpipe

/-- Where the reply can be framed, one frame with its call id is written. -/
theorem trySend_of_framed {reply : Reply} (h : Framed o reply) :
    ∃ sent, sent.cid = reply.cid ∧ trySend o reply env w =
      (.ok (), { w with rt := { w.rt with written := w.rt.written ++ [sent] } }) := by
  unfold trySend
  rw [hpipe.1, hpipe.2]
  rcases h with ⟨payload, hd⟩ | ⟨e, hd, hkind, reply', hr, payload, hd'⟩
  · exact ⟨reply, rfl, by simp [send, hd]⟩
  · refine ⟨reply', errorReply_cid hr, ?_⟩
    have hsend : sendError o reply.cid e .takes w =
        (.ok (), { w with rt := { w.rt with written := w.rt.written ++ [reply'] } }) := by
      simp [sendError, hr, send, hd']
    simp only [Bool.or_eq_true, Bool.and_eq_true, Bool.not_eq_true'] at hkind
    have hfirst : send reply .takes w = (.error e, w) := by simp [send, hd]
    rw [hfirst]
    rcases hkind with hw | ⟨hos, hexc⟩
    · simp [hw, hsend]
    · by_cases hw : e.isA .wireError = true
      · simp [hw, hsend]
      · simp [hw, hos, hexc, hsend]

/-- Where it cannot, nothing is written. -/
theorem trySend_of_not_framed {reply : Reply} (h : ¬ Framed o reply) :
    ∃ e, trySend o reply env w = (.error e, w) := by
  unfold trySend
  rw [hpipe.1, hpipe.2]
  rcases send_takes w reply with ⟨hd, -⟩ | ⟨e, hd, hs⟩
  · exact absurd (.inl hd) h
  · rw [hs]
    -- the fallback fails too, or the frame would have been sent
    have hfall : (e.isA .wireError || (!e.isA .osError && e.isException)) = true →
        ∃ x, sendError o reply.cid e .takes w = (.error x, w) := by
      intro hkind
      cases hr : errorReply o.redact reply.cid e with
      | error x => exact ⟨x, by simp [sendError, hr]⟩
      | ok reply' =>
        rcases send_takes w reply' with ⟨hd', -⟩ | ⟨x, -, hs'⟩
        · exact absurd (.inr ⟨e, hd, hkind, reply', hr, hd'⟩) h
        · exact ⟨x, by simp [sendError, hr, hs']⟩
    by_cases hw : e.isA .wireError = true
    · obtain ⟨x, hx⟩ := hfall (by simp [hw])
      exact ⟨x, by simp [hw, hx]⟩
    · by_cases hos : e.isA .osError = true
      · exact ⟨e, by simp [hw, hos]⟩
      · by_cases hexc : e.isException = true
        · obtain ⟨x, hx⟩ := hfall (by simp [hos, hexc])
          exact ⟨x, by simp [hw, hos, hexc, hx]⟩
        · exact ⟨e, by simp [hw, hos, hexc]⟩

/-- **`_send_reply` on an open session.** -/
theorem sendReply_of_framed {reply : Reply} (hopen : w.rt.closed = false)
    (h : Framed o reply) :
    ∃ sent, sent.cid = reply.cid ∧ sendReply o reply true env w =
      (.ok (), ⟨{ w.rt with written := w.rt.written ++ [sent] }, w.pump.endCall env.endAt⟩) := by
  obtain ⟨sent, hcid, hsend⟩ := trySend_of_framed (w := w) hpipe h
  exact ⟨sent, hcid, by simp [sendReply, hopen, hsend]⟩

theorem sendReply_of_not_framed {reply : Reply}
    (hopen : w.rt.closed = false) (h : ¬ Framed o reply) :
    (sendReply o reply true env w).2.rt.written = w.rt.written := by
  obtain ⟨e, hsend⟩ := trySend_of_not_framed (w := w) hpipe h
  simp only [sendReply, hopen, hsend, Bool.false_eq_true, if_false, if_true]
  split
  · rfl
  · split <;> rfl

end

/-! ## The pump's count -/

@[simp] theorem Pump.outstanding_beginCall (p : Pump) (now : ℚ) :
    (p.beginCall now).outstanding = p.outstanding + 1 := rfl

@[simp] theorem Pump.outstanding_endCall (p : Pump) (now : ℚ) :
    (p.endCall now).outstanding = p.outstanding - 1 := by
  unfold endCall
  split <;> rfl

/-! ## Calls -/

/-- **A call nothing but the host function decides**: the frame names a bound
function other than the console, the session is open, the pipe takes frames,
and no limit has passed. -/
structure Unhindered {Date : Type} (o : Options) (message : Message Date) (env : CallEnv)
    (w : World) (cid : ℤ) (hid : ℕ) (handler : Handler) : Prop where
  opened : w.rt.closed = false
  alive : w.rt.killed = false
  pipe : PipeTakes env
  watch : env.watch = none
  ended : env.thread = .ended env.behaviour
  scheduled : env.schedule = none
  budget : ∀ most, o.maxHostCalls = some most → w.rt.hostCalls < most
  room : ∀ most, o.maxInflight = some most →
    w.pump.outstanding < (most : ℤ) ∧ w.rt.asyncInflight < (most : ℤ)
  callId : plainField "cid" message = .int cid
  bound : lookup (plainField "hid" message) w.rt = .ok (some ⟨some hid, handler⟩)
  args : argsIsList message = true
  tool : ∀ c, o.consoleHid = some c → eqInt (plainField "hid" message) c = false

/-- The session after the pump has dealt with what a call raised. -/
def afterPump (unsafeText : ℕ → Bool) (r : Except Exc Unit × World) : World :=
  match r.1 with
  | .ok () => r.2
  | .error e => (pumpExcept unsafeText e r.2).2

/-- One reply frame with the call's id was written, the count of outstanding
calls moved by `moved`, and the worker was not killed. -/
def Answered (cid : ℤ) (moved : ℤ) (before after : World) : Prop :=
  (∃ reply, reply.cid = cid ∧ after.rt.written = before.rt.written ++ [reply]) ∧
  after.pump.outstanding = before.pump.outstanding + moved ∧
  after.rt.killed = before.rt.killed

theorem written_pumpExcept (unsafeText : ℕ → Bool) (e : Exc) (w : World) :
    (pumpExcept unsafeText e w).2.rt.written = w.rt.written := by
  unfold pumpExcept
  split_ifs <;> rfl

theorem written_afterPump (unsafeText : ℕ → Bool) (r : Except Exc Unit × World) :
    (afterPump unsafeText r).rt.written = r.2.rt.written := by
  unfold afterPump
  split
  · rfl
  · exact written_pumpExcept unsafeText _ _

/-- Nothing written, nothing answered. -/
theorem not_answered {cid moved : ℤ} {before after : World}
    (h : after.rt.written = before.rt.written) : ¬ Answered cid moved before after := by
  rintro ⟨⟨reply, -, hw⟩, -, -⟩
  rw [h] at hw
  simp at hw

section

variable {Date : Type} {o : Options} {loop : Bool} {message : Message Date} {env : CallEnv}
variable {w : World} {cid : ℤ} {hid : ℕ} {handler : Handler}

/-- The session as the handler finds it: the call is counted and on the pump's
books. -/
def begun (w : World) (env : CallEnv) : World :=
  ⟨{ w.rt with hostCalls := w.rt.hostCalls + 1 }, w.pump.beginCall env.beginAt⟩

section

variable (h : Unhindered o message env w cid hid handler)
include h

/-- An unhindered call gets as far as its handler. -/
theorem Unhindered.onCall_eq :
    onCall o loop message env w =
      if handler.isAsync && loop then
        (.ok (), World.accept ⟨{ (begun w env).rt with asyncInflight := w.rt.asyncInflight + 1 },
          (begun w env).pump⟩ ⟨some hid, handler⟩)
      else runWatched o ⟨some hid, handler⟩ cid true
        (if w.rt.toolHids.any (fun t : ℕ => eqInt (plainField "hid" message) t) && !handler.untimed
          then o.toolTimeout else none) env (begun w env) := by
  have hconsole : o.consoleHid.any (fun c : ℕ => eqInt (plainField "hid" message) c) = false := by
    cases hc : o.consoleHid with
    | none => rfl
    | some c => simpa using h.tool c hc
  have hbudget : o.maxHostCalls.filter (fun most : ℕ => decide (most < w.rt.hostCalls + 1)) = none := by
    cases hm : o.maxHostCalls with
    | none => rfl
    | some most =>
      have := h.budget most hm
      simp only [Option.filter_some, decide_eq_true_eq]
      rw [if_neg (by omega)]
  have hroom : o.maxInflight.filter (fun most : ℕ => decide ((most : ℤ) ≤ w.pump.outstanding) ||
      decide ((most : ℤ) ≤ w.rt.asyncInflight)) = none := by
    cases hm : o.maxInflight with
    | none => rfl
    | some most =>
      obtain ⟨h1, h2⟩ := h.room most hm
      simp only [Option.filter_some, Bool.or_eq_true, decide_eq_true_eq]
      rw [if_neg (by omega)]
  simp only [onCall, h.bound, h.callId, h.args, hconsole, hbudget, toolCall, hroom, h.scheduled,
    Bool.false_eq_true, if_false]
  rfl

variable (hexc : ∀ e, env.behaviour = .raises e → e.isException = true)
include hexc

/-- Without a watchdog, `_run_watched` is the handler's run, on this thread or
on its own; either way it sends what `boxed` says. -/
theorem Unhindered.runWatched_eq (limit : Option ℚ) (v : World) :
    (∃ reply, boxed o cid env.behaviour = some reply ∧
      runWatched o ⟨some hid, handler⟩ cid true limit env v =
        sendReply o reply true env (v.accept ⟨some hid, handler⟩)) ∨
    (boxed o cid env.behaviour = none ∧
      ∃ x, runWatched o ⟨some hid, handler⟩ cid true limit env v =
        (.error x, v.accept ⟨some hid, handler⟩)) := by
  cases limit with
  | none =>
    have heq : runWatched o ⟨some hid, handler⟩ cid true none env v =
        runSyncHandler o ⟨some hid, handler⟩ cid true env v := by
      simp only [runWatched, h.watch, Watch.act, ite_self]
      rcases runSyncHandler o ⟨some hid, handler⟩ cid true env v with ⟨_ | _, _⟩ <;> rfl
    rw [heq]
    simp only [runSyncHandler, Entry.behaviour]
    cases hb : env.behaviour with
    | returns walk => exact .inl ⟨_, rfl, rfl⟩
    | raises e =>
      have he := hexc e hb
      simp only [he, if_true, replyError, boxed]
      cases hr : errorReply o.redact cid e with
      | ok reply => exact .inl ⟨reply, rfl, rfl⟩
      | error x => exact .inr ⟨rfl, x, rfl⟩
  | some limit =>
    have heq : runWatched o ⟨some hid, handler⟩ cid true (some limit) env v =
        runTimedHandler o ⟨some hid, handler⟩ cid true limit env v := by
      simp only [runWatched, h.watch, Watch.act, ite_self]
      rcases runTimedHandler o ⟨some hid, handler⟩ cid true limit env v with ⟨_ | _, _⟩ <;> rfl
    rw [heq]
    simp only [runTimedHandler, h.ended, Entry.behaviour]
    cases hb : boxed o cid env.behaviour with
    | some reply => exact .inl ⟨reply, rfl, rfl⟩
    | none => exact .inr ⟨rfl, indexError, rfl⟩

/-- The handler's answer on the pump's thread, timed or not. -/
theorem Unhindered.runWatched_answered (limit : Option ℚ) (unsafeText : ℕ → Bool) :
    Answered cid 0 w (afterPump unsafeText
      (runWatched o ⟨some hid, handler⟩ cid true limit env (begun w env))) ↔
    Answerable o cid env.behaviour := by
  have hopen : ((begun w env).accept ⟨some hid, handler⟩).rt.closed = false := h.opened
  rcases h.runWatched_eq hexc limit (begun w env) with ⟨reply, hbox, heq⟩ | ⟨hbox, x, heq⟩
  · rw [heq]
    constructor
    · intro hans
      refine ⟨reply, hbox, ?_⟩
      by_contra hnot
      have hw := sendReply_of_not_framed (w := (begun w env).accept ⟨some hid, handler⟩)
        h.pipe hopen hnot
      refine not_answered ?_ hans
      rw [written_afterPump, hw]
      rfl
    · rintro ⟨reply', hbox', hframed⟩
      obtain rfl : reply = reply' := Option.some.inj (hbox.symm.trans hbox')
      obtain ⟨sent, hcid, hsend⟩ :=
        sendReply_of_framed (w := (begun w env).accept ⟨some hid, handler⟩) h.pipe hopen hframed
      rw [hsend]
      refine ⟨⟨sent, hcid.trans (boxed_cid hbox), rfl⟩, ?_, rfl⟩
      simp [afterPump, begun, World.accept]
  · rw [heq]
    constructor
    · intro hans
      refine absurd hans (not_answered ?_)
      rw [written_afterPump]
      rfl
    · rintro ⟨reply, hbox', -⟩
      rw [hbox] at hbox'
      cases hbox'

end

/-- The answer of an asynchronous call, once its future holds `b`. -/
theorem finishAsyncCall_answered {b : Behaviour} (hpipe : PipeTakes env)
    (hexc : ∀ e, b = .raises e → e.isException = true) (hopen : w.rt.closed = false) :
    Answered cid (-1) w (finishAsyncCall o cid b env w).2 ↔ Answerable o cid b := by
  set v : World := { w with rt := { w.rt with asyncInflight := w.rt.asyncInflight - 1 } } with hv
  have hvopen : v.rt.closed = false := hopen
  have heq : (∃ reply, boxed o cid b = some reply ∧
      finishAsyncCall o cid b env w = sendReply o reply true env v) ∨
      (boxed o cid b = none ∧ ∃ x, finishAsyncCall o cid b env w = (.error x, v)) := by
    cases b with
    | returns walk => exact .inl ⟨_, rfl, rfl⟩
    | raises e =>
      have he := hexc e rfl
      simp only [finishAsyncCall, replyError, boxed, he, if_true]
      cases hr : errorReply o.redact cid e with
      | ok reply => exact .inl ⟨reply, rfl, rfl⟩
      | error x => exact .inr ⟨rfl, x, rfl⟩
  rcases heq with ⟨reply, hbox, heq⟩ | ⟨hbox, x, heq⟩
  · rw [heq]
    constructor
    · intro hans
      refine ⟨reply, hbox, ?_⟩
      by_contra hnot
      exact not_answered (sendReply_of_not_framed (w := v) hpipe hvopen hnot) hans
    · rintro ⟨reply', hbox', hframed⟩
      obtain rfl : reply = reply' := Option.some.inj (hbox.symm.trans hbox')
      obtain ⟨sent, hcid, hsend⟩ := sendReply_of_framed (w := v) hpipe hvopen hframed
      rw [hsend]
      refine ⟨⟨sent, hcid.trans (boxed_cid hbox), rfl⟩, ?_, rfl⟩
      simp [hv, sub_eq_add_neg]
  · rw [heq]
    constructor
    · intro hans
      exact absurd hans (not_answered rfl)
    · rintro ⟨reply, hbox', -⟩
      rw [hbox] at hbox'
      cases hbox'

/-- **A host function's failure is the guest's exactly where it can be told.**
For every call frame naming a bound host function and every behaviour of that
function, the call gets one reply frame, the outstanding count returns to its
previous value and the worker lives, if and only if the behaviour is
`Answerable`. An asynchronous call is first only counted; its reply goes out
when its future is done, whatever the session has been through by then. -/
theorem hostCall_answered_iff (unsafeText : ℕ → Bool)
    (h : Unhindered o message env w cid hid handler)
    (hexc : ∀ e, env.behaviour = .raises e → e.isException = true) :
    ((handler.isAsync && loop) = false →
      (Answered cid 0 w (afterPump unsafeText (onCall o loop message env w)) ↔
        Answerable o cid env.behaviour)) ∧
    ((handler.isAsync && loop) = true → (onCall o loop message env w).1 = .ok () ∧
      (onCall o loop message env w).2.rt.written = w.rt.written ∧
      (onCall o loop message env w).2.pump.outstanding = w.pump.outstanding + 1 ∧
      (onCall o loop message env w).2.rt.killed = w.rt.killed ∧
      ∀ later : World, later.rt.closed = false →
        (Answered cid (-1) later (finishAsyncCall o cid env.behaviour env later).2 ↔
          Answerable o cid env.behaviour)) := by
  constructor
  · intro hsync
    rw [h.onCall_eq, if_neg (by simp [hsync])]
    exact h.runWatched_answered hexc _ unsafeText
  · intro hasync
    rw [h.onCall_eq, if_pos hasync]
    exact ⟨rfl, rfl, rfl, rfl, fun later hopen => finishAsyncCall_answered h.pipe hexc hopen⟩

end

/-! ## A message that cannot be read -/

namespace Unreadable

/-- No limits, no redaction. -/
def options : Options where
  maxHostCalls := none
  maxInflight := none
  toolTimeout := none
  consoleHid := none
  redact := ⟨false, none⟩
  maxMemory := none
  g := fun _ => []

/-- An exception whose `__str__` raises another. -/
def error : Exc :=
  .mk ⟨[], true⟩ (ascii "BrokenError") (.ok false) (.error (builtin "KeyError" "missing"))

/-- The call `{"t": "call", "cid": 5, "hid": 1, "args": []}`. -/
def message : Message Unit :=
  [(ascii "t", .plain (.str (ascii "call"))), (ascii "cid", .plain (.int 5)),
    (ascii "hid", .plain (.int 1)), (ascii "args", .multi [])]

/-- Nothing around the call interferes. -/
def env (b : Behaviour) : CallEnv where
  beginAt := 10
  endAt := 11
  behaviour := b
  thread := .ended b
  schedule := none
  watch := none
  watchFirst := false
  pipe := .takes
  pipe2 := .takes

/-- A session with one host function, bound under the id 1. -/
def world : World where
  rt :=
    { handlers := [(1, ⟨false, false⟩)], tokenToHid := [(7, 1)], toolHids := [1],
      revokedHids := [], nextHid := 2, hostCalls := 0, asyncInflight := 0, closed := false,
      killed := false, written := [], accepted := [] }
  pump := Pump.init none none none none 9

theorem unhindered (b : Behaviour) :
    Unhindered options message (env b) world 5 1 ⟨false, false⟩ where
  opened := rfl
  alive := rfl
  pipe := ⟨rfl, rfl⟩
  watch := rfl
  ended := rfl
  scheduled := rfl
  budget := fun _ h => by cases h
  room := fun _ h => by cases h
  callId := rfl
  bound := rfl
  args := rfl
  tool := fun _ h => by cases h

end Unreadable

/-- A bound function that raises an exception whose `str()` raises: no reply is
written, and the pump kills the worker. -/
theorem hostCall_not_answered :
    Unhindered Unreadable.options Unreadable.message (Unreadable.env (.raises Unreadable.error))
      Unreadable.world 5 1 ⟨false, false⟩ ∧
    Unreadable.error.isException = true ∧
    ¬ Answered 5 0 Unreadable.world (afterPump (fun _ => false)
      (onCall Unreadable.options false Unreadable.message
        (Unreadable.env (.raises Unreadable.error)) Unreadable.world)) ∧
    (afterPump (fun _ => false) (onCall Unreadable.options false Unreadable.message
      (Unreadable.env (.raises Unreadable.error)) Unreadable.world)).rt.killed = true := by
  refine ⟨Unreadable.unhindered _, rfl, not_answered ?_, ?_⟩
  · rw [written_afterPump]
    rfl
  · rfl

/-- A function that returns `null` is answered, and so is one that raises an error which
can be read. -/
theorem hostCall_answered_null :
    Answered 5 0 Unreadable.world (afterPump (fun _ => false)
      (onCall Unreadable.options false Unreadable.message
        (Unreadable.env (.returns (.writes (ascii "null")))) Unreadable.world)) ∧
    Answered 5 0 Unreadable.world (afterPump (fun _ => false)
      (onCall Unreadable.options false Unreadable.message
        (Unreadable.env (.raises (builtin "ValueError" "no"))) Unreadable.world)) := by
  have hframed : ∀ reply, (dumps reply).toOption.isSome = true →
      Framed Unreadable.options reply := by
    intro reply hok
    cases hd : dumps reply with
    | ok payload => exact .inl ⟨payload, hd⟩
    | error e => simp [hd, Except.toOption] at hok
  constructor
  · refine ((hostCall_answered_iff (fun _ => false) (Unreadable.unhindered _) ?_).1 rfl).2
      ⟨_, rfl, hframed _ (by decide +kernel)⟩
    exact fun e he => by cases he
  · refine ((hostCall_answered_iff (fun _ => false) (Unreadable.unhindered _) ?_).1 rfl).2
      ⟨_, rfl, hframed _ (by decide +kernel)⟩
    exact fun e he => by cases he; rfl

end Pydeno.Isolated
