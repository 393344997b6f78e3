import Pydeno.Isolated.Model.ToolTimeout
import Pydeno.Isolated.Replies
/-!
# The tool deadline protocol

Over every interleaving of handlers and waiting threads, each call under
`tool_timeout` is to get one reply and to end its pause once: the handler's own
answer unless the waiting thread gave the call up before it ended, and the
fixed time-out error if it did. The shared counter is to be the number of calls
given up on after they started that have not ended yet.

The counter always is. The replies are right exactly where every host function
that ends leaves an answer (`boxed`): a handler that ends by an exception that
is no `Exception`, or by one whose message cannot be read, ends its call with
an empty box, and the waiting thread fails on `box[0]`.
-/

namespace Pydeno.Isolated

open TimedCall AnyCall Interleaving List

open Wire (ascii)

/-! ## What is asked of the calls -/

/-- The reply a call is to get: the time-out error if it was given up on, or
else the handler's own answer (or the failure to start its thread). -/
def RightReply (o : Options) (c : ThreadCall) (reply : Reply) : Prop :=
  match c.gaveUp with
  | some _ => reply = timeoutReply c.cid
  | none => (∃ b, c.outcome = some b ∧ boxed o c.cid b = some reply) ∨
      ∃ text, errorReply o.redact c.cid (builtin "RuntimeError" text) = .ok reply

/-- How many steps the waiting thread has left, at most. -/
def WaitPc.rank : WaitPc → ℕ
  | .starting => 6
  | .waiting => 5
  | .looking => 4
  | .givingUp => 3
  | .taking => 2
  | .sending _ => 1
  | .finished => 0
  | .crashed => 0

/-- **A call that is answered once.** Until it is over nothing is sent, and the
waiting thread can always go on towards its end; then one right reply has been
sent and the pause has ended once. A call is given up on only before it has
ended, and one given up on before it began is never run. -/
structure AnsweredOnce (o : Options) (count : ℤ) (c : ThreadCall) : Prop where
  pending : c.wait.rank ≠ 0 → c.sent = [] ∧ ∃ count' c', WaitStep o count c count' c' ∧
    c'.wait.rank < c.wait.rank
  settled : c.wait.rank = 0 → ∃ reply, c.sent = [reply] ∧ RightReply o c reply
  pause : c.pauseEnds = c.sent.length
  notEnded : ∀ f, c.gaveUp = some f → f.done = false
  neverRuns : ∀ f, c.gaveUp = some f → f.started = false → c.ran = false

/-- The calls that were given up on after they started and have not ended. -/
def AnyCall.outlasting (c : AnyCall) : Bool :=
  c.flags.abandoned && c.flags.started && !c.flags.done

/-- **What the protocol promises** of all calls of a session. -/
structure Kept (o : Options) (sys : Sys ℤ AnyCall) : Prop where
  calls : ∀ c, .thread c ∈ sys.parts → AnsweredOnce o sys.shared c
  counter : sys.shared = sys.parts.countP outlasting

/-! ## One call -/

/-- What the flags of a synchronous call say at every step, whatever its
handler does. -/
structure ThreadFlags (c : ThreadCall) : Prop where
  notDone : c.work = .unborn ∨ c.work = .ready ∨ c.work = .running ∨ c.work = .finishing →
    c.call.done = false
  notGivenUp : 1 < c.wait.rank → c.call.abandoned = false
  unborn : c.wait = .starting → c.work = .unborn

/-- What the flags of an asynchronous call say at every step. -/
structure TaskFlags (c : TaskCall) : Prop where
  notDone : c.task ≠ .noted → c.call.done = false
  notGivenUp : c.wait ≠ .finished → c.call.abandoned = false

/-- What holds of a synchronous call at every step, where handlers that end
leave an answer. -/
structure ThreadInv (o : Options) (c : ThreadCall) : Prop extends ThreadFlags c where
  answers : ∀ b, c.outcome = some b → ∃ reply, boxed o c.cid b = some reply
  gaveUp : c.gaveUp = none ↔ c.call.abandoned = false
  took : c.wait = .taking → c.call.done = true
  boxEmpty : c.work = .unborn ∨ c.work = .ready ∨ c.work = .running → c.box = []
  boxRight : ∀ reply ∈ c.box, ∃ b, c.outcome = some b ∧ boxed o c.cid b = some reply
  boxFull : c.work = .finishing ∨ c.work = .setting ∨ c.work = .dead →
    c.call.abandoned = true ∨ c.box ≠ []
  doneLate : c.call.done = true → c.work = .setting ∨ c.work = .dead
  nothingSent : c.wait.rank ≠ 0 → c.sent = []
  notCrashed : c.wait ≠ .crashed
  sentRight : c.wait = .finished → ∃ reply, c.sent = [reply] ∧ RightReply o c reply
  sendingRight : ∀ reply, c.wait = .sending reply → RightReply o c reply
  pause : c.pauseEnds = c.sent.length
  ranStarted : c.ran = true → c.call.started = true
  flagsThen : ∀ f, c.gaveUp = some f → f.done = false ∧ (f.started = false → c.call.started = false)

theorem ThreadInv.new (o : Options) (cid : ℤ) {outcome : Option Behaviour}
    (h : ∀ b, outcome = some b → ∃ reply, boxed o cid b = some reply) :
    ThreadInv o (.new cid outcome) := by
  have hflags : ThreadFlags (.new cid outcome) := ⟨fun _ => rfl, fun _ => rfl, fun _ => rfl⟩
  constructor <;> simp_all [ThreadCall.new, WaitPc.rank]

attribute [simp] WaitPc.rank

variable {call : TimedCall} {count count' : ℤ} {c c' : ThreadCall} {o : Options}
    {allowed : Behaviour → Prop}

theorem TimedCall.begin_eq_false (h : call.begin.1 = false) : call.abandoned = true := by
  unfold begin at h
  split at h
  · assumption
  · cases h

theorem TimedCall.begin_eq_true (h : call.begin.1 = true) :
    call.abandoned = false ∧ call.begin.2 = { call with started := true } := by
  unfold begin at h ⊢
  split at h
  · cases h
  next hab =>
    exact ⟨by simpa using hab, by simp [hab]⟩

theorem TimedCall.abandon_eq_some {n : ℤ} (h : (call.abandon count).1 = some n) :
    call.done = false ∧ (call.abandon count).2.2 = { call with abandoned := true } ∧
      (call.abandon count).2.1 = if call.started then count + 1 else count := by
  unfold abandon at h ⊢
  split at h
  · cases h
  next hdone =>
    exact ⟨by simpa using hdone, by simp [hdone], by simp [hdone]⟩

theorem TimedCall.abandon_eq_none (h : (call.abandon count).1 = none) : call.done = true := by
  unfold abandon at h
  split at h
  · assumption
  · cases h

/-- A call's share of the counter. -/
def AnyCall.weight (c : AnyCall) : ℤ := if c.outlasting then 1 else 0

attribute [simp] AnyCall.weight AnyCall.outlasting AnyCall.flags

/-- **Ending takes a call off the counter** if it was on it. -/
theorem TimedCall.finish_count (count : ℤ) (h : call.done = false) :
    (call.finish count).1 + (if call.abandoned && call.started && !call.done then 1 else 0) =
      count := by
  unfold finish
  cases call.abandoned <;> cases call.started <;> simp [h]

/-- **Giving up puts a call on the counter** if it had started. -/
theorem TimedCall.abandon_count (count : ℤ) (h : call.done = false) :
    (call.abandon count).2.1 = count + (if call.started then 1 else 0) := by
  unfold abandon
  cases call.started <;> simp [h]

theorem WorkStep.flags (hs : WorkStep o count c count' c') (h : ThreadFlags c) :
    ThreadFlags c' ∧ count' + weight (.thread c) = count + weight (.thread c') := by
  have hborn : c.work ≠ .unborn → c.wait ≠ .starting := fun hw hs => hw (h.unborn hs)
  cases hs with
  | refused hpc hb | ends hpc ho =>
    have hwait := hborn (by simp [hpc])
    exact ⟨⟨fun _ => h.notDone (by simp [hpc]), h.notGivenUp, fun hs => absurd hs hwait⟩, rfl⟩
  | begins hpc hb =>
    have hwait := hborn (by simp [hpc])
    obtain ⟨hab, hcall⟩ := begin_eq_true hb
    rw [hcall]
    refine ⟨⟨fun _ => h.notDone (by simp [hpc]), h.notGivenUp, fun hs => absurd hs hwait⟩, ?_⟩
    simp [hab]
  | finishes hpc =>
    have hwait := hborn (by simp [hpc])
    refine ⟨⟨by simp, h.notGivenUp, fun hs => absurd hs hwait⟩, ?_⟩
    have hcount := finish_count count (h.notDone (by simp [hpc]))
    simpa [finish] using hcount
  | sets hpc =>
    have hwait := hborn (by simp [hpc])
    exact ⟨⟨by simp, h.notGivenUp, fun hs => absurd hs hwait⟩, rfl⟩

theorem WaitStep.flags (hs : WaitStep o count c count' c') (h : ThreadFlags c) :
    ThreadFlags c' ∧ count' + weight (.thread c) = count + weight (.thread c') := by
  have hgave := h.notGivenUp
  cases hs with
  | noThread hpc _ | finds hpc _ | takes hpc _ | crashes hpc _ | sends hpc =>
    exact ⟨⟨h.notDone, by simp, by simp⟩, rfl⟩
  | starts hpc =>
    have hdone := h.notDone (.inl (h.unborn hpc))
    exact ⟨⟨fun _ => hdone, fun _ => hgave (by simp [hpc]), by simp⟩, rfl⟩
  | wakes hpc _ | timesOut hpc | findsNothing hpc _ | hadEnded hpc _ =>
    exact ⟨⟨h.notDone, fun _ => hgave (by simp [hpc]), by simp⟩, rfl⟩
  | abandons hpc hn =>
    obtain ⟨hnd, hcall, -⟩ := abandon_eq_some hn
    have hab := hgave (by simp [hpc])
    rw [abandon_count count hnd, hcall]
    refine ⟨⟨h.notDone, by simp, by simp⟩, ?_⟩
    simp [hab, hnd]

/-- The handler's thread keeps the invariant. -/
theorem ThreadInv.work (hs : WorkStep o count c count' c') (h : ThreadInv o c) :
    ThreadInv o c' := by
  have hflags := (hs.flags h.toThreadFlags).1
  cases hs with
  | refused hpc hb =>
    have hab := begin_eq_false hb
    have hnd := h.notDone (by simp [hpc])
    exact { hflags, h with
      boxEmpty := by simp
      boxFull := fun _ => .inl hab
      doneLate := by simp [hnd] }
  | begins hpc hb =>
    obtain ⟨hab, hcall⟩ := begin_eq_true hb
    have hnd := h.notDone (by simp [hpc])
    have hbox := h.boxEmpty (by simp [hpc])
    have hnone := h.gaveUp.2 hab
    rw [hcall] at hflags ⊢
    exact { hflags, h with
      boxEmpty := fun _ => hbox
      boxFull := by simp
      doneLate := by simp [hnd]
      ranStarted := fun _ => rfl
      flagsThen := fun f hf => by simp [hnone] at hf }
  | @ends b hpc ho =>
    have hnd := h.notDone (by simp [hpc])
    have hbox := h.boxEmpty (by simp [hpc])
    obtain ⟨reply, hreply⟩ := h.answers b ho
    have hnew : c.box ++ (boxed o c.cid b).toList = [reply] := by simp [hbox, hreply]
    rw [hnew]
    exact { hflags, h with
      boxEmpty := by simp
      boxRight := fun r hr => ⟨b, ho, by simpa [mem_singleton.1 hr] using hreply⟩
      boxFull := by simp
      doneLate := by simp [hnd] }
  | finishes hpc =>
    have hbox := h.boxFull (by simp [hpc])
    exact { hflags, h with
      took := fun _ => rfl
      boxEmpty := by simp
      boxFull := fun _ => hbox
      doneLate := by simp
      flagsThen := h.flagsThen }
  | sets hpc =>
    have hbox := h.boxFull (by simp [hpc])
    exact { hflags, h with
      boxEmpty := by simp
      boxFull := fun _ => hbox
      doneLate := by simp }

/-- The waiting thread goes on inside the protocol. -/
theorem ThreadInv.goOn {pc : WaitPc} (h : ThreadInv o c) (hfrom : 1 < c.wait.rank)
    (hto : pc = .looking ∨ pc = .givingUp ∨ pc = .taking)
    (htook : pc = .taking → c.call.done = true) : ThreadInv o { c with wait := pc } := by
  have hnot := h.notGivenUp hfrom
  have hsent := h.nothingSent (by omega)
  rcases hto with rfl | rfl | rfl <;>
    exact { h with
      notGivenUp := fun _ => hnot, took := htook, unborn := by simp
      nothingSent := fun _ => hsent, notCrashed := by simp, sentRight := by simp
      sendingRight := by simp }

/-- The waiting thread has its reply. -/
theorem ThreadInv.send {reply : Reply} (h : ThreadInv o c)
    (hfrom : c.wait.rank ≠ 0) (hright : RightReply o c reply) :
    ThreadInv o { c with wait := .sending reply } := by
  have hsent := h.nothingSent hfrom
  exact { h with
    notGivenUp := by simp, took := by simp, unborn := by simp
    nothingSent := fun _ => hsent, notCrashed := by simp, sentRight := by simp
    sendingRight := fun r hr => by
      obtain rfl : reply = r := by simpa using hr
      exact hright }

/-- An answer in the box is the right one for a call not given up on. -/
theorem ThreadInv.boxRightReply {reply : Reply} {rest : List Reply}
    (h : ThreadInv o c) (hfrom : 1 < c.wait.rank) (hbox : c.box = reply :: rest) :
    RightReply o c reply := by
  have hnone := h.gaveUp.2 (h.notGivenUp hfrom)
  simp only [RightReply, hnone]
  exact .inl (h.boxRight reply (by simp [hbox]))

/-- **The waiting thread keeps the invariant.** -/
theorem ThreadInv.wait (hs : WaitStep o count c count' c') (h : ThreadInv o c) :
    ThreadInv o c' := by
  have hflags := (hs.flags h.toThreadFlags).1
  cases hs with
  | @noThread _ text reply hpc hr =>
    have hfrom : 1 < c.wait.rank := by simp [hpc]
    refine h.send (by omega) ?_
    simp only [RightReply, h.gaveUp.2 (h.notGivenUp hfrom)]
    exact .inr ⟨text, hr⟩
  | starts hpc =>
    have hwork := h.unborn hpc
    have hnd := h.notDone (by simp [hwork])
    exact { hflags, h with
      took := by simp
      boxEmpty := fun _ => h.boxEmpty (by simp [hwork])
      boxFull := by simp
      doneLate := fun hd => by simp [hnd] at hd
      nothingSent := fun _ => h.nothingSent (by simp [hpc])
      notCrashed := by simp
      sentRight := by simp
      sendingRight := by simp }
  | wakes hpc he | timesOut hpc => exact h.goOn (by simp [hpc]) (.inl rfl) (by simp)
  | finds hpc hbox | takes hpc hbox =>
    have hfrom : 1 < c.wait.rank := by simp [hpc]
    exact h.send (by omega) (h.boxRightReply hfrom hbox)
  | findsNothing hpc hbox => exact h.goOn (by simp [hpc]) (.inr (.inl rfl)) (by simp)
  | hadEnded hpc hd =>
    exact h.goOn (by simp [hpc]) (.inr (.inr rfl)) fun _ => abandon_eq_none hd
  | abandons hpc hn =>
    obtain ⟨hnd, hcall, -⟩ := abandon_eq_some hn
    have hsent := h.nothingSent (by simp [hpc])
    rw [hcall] at hflags ⊢
    exact { hflags, h with
      gaveUp := by simp
      took := by simp
      boxFull := fun _ => .inl rfl
      nothingSent := fun _ => hsent
      notCrashed := by simp
      sentRight := by simp
      sendingRight := fun r hr => by
        obtain rfl : timeoutReply c.cid = r := by simpa using hr
        rfl
      flagsThen := fun f hf => by
        obtain rfl : c.call = f := by simpa using hf
        exact ⟨hnd, fun hst => hst⟩ }
  | crashes hpc hbox =>
    -- a call that has ended and was not given up on has left its answer
    have hwork := h.doneLate (h.took hpc)
    have hab := h.notGivenUp (by simp [hpc])
    rcases h.boxFull (.inr hwork) with hgave | hfull
    · rw [hab] at hgave
      cases hgave
    · exact absurd hbox hfull
  | @sends _ reply hpc =>
    have hsent := h.nothingSent (by simp [hpc])
    have hright := h.sendingRight reply hpc
    have hpause := h.pause
    rw [hsent] at hpause ⊢
    exact { hflags, h with
      took := by simp
      nothingSent := by simp
      notCrashed := by simp
      sentRight := fun _ => ⟨reply, rfl, hright⟩
      sendingRight := by simp
      pause := by simp [hpause] }

/-- The waiting thread can always take a step, which brings it closer to its
end. -/
theorem ThreadInv.progress (h : ThreadInv o c) (count : ℤ) (hrank : c.wait.rank ≠ 0) :
    ∃ count' c', WaitStep o count c count' c' ∧ c'.wait.rank < c.wait.rank := by
  cases hpc : c.wait with
  | starting => exact ⟨count, _, .starts hpc, by simp⟩
  | waiting => exact ⟨count, _, .timesOut hpc, by simp⟩
  | looking =>
    cases hbox : c.box with
    | nil => exact ⟨count, _, .findsNothing hpc hbox, by simp⟩
    | cons reply rest => exact ⟨count, _, .finds hpc hbox, by simp⟩
  | givingUp =>
    cases hn : (c.call.abandon count).1 with
    | none => exact ⟨count, _, .hadEnded hpc hn, by simp⟩
    | some n => exact ⟨_, _, .abandons hpc hn, by simp⟩
  | taking =>
    cases hbox : c.box with
    | nil =>
      have hstep : WaitStep o count c count _ := .crashes hpc hbox
      exact absurd rfl (h.wait hstep).notCrashed
    | cons reply rest => exact ⟨count, _, .takes hpc hbox, by simp⟩
  | sending reply => exact ⟨count, _, .sends hpc, by simp⟩
  | finished | crashed => simp [hpc] at hrank

theorem ThreadInv.answeredOnce (h : ThreadInv o c) (count : ℤ) : AnsweredOnce o count c where
  pending := fun hrank => ⟨h.nothingSent hrank, h.progress count hrank⟩
  settled := fun hrank => by
    refine h.sentRight ?_
    cases hpc : c.wait with
    | finished => rfl
    | crashed => exact absurd hpc h.notCrashed
    | _ => simp [hpc] at hrank
  pause := h.pause
  notEnded := fun f hf => (h.flagsThen f hf).1
  neverRuns := fun f hf hst => by
    have hns := (h.flagsThen f hf).2 hst
    by_contra hran
    rw [h.ranStarted (by simpa using hran)] at hns
    cases hns

/-! ## The counter -/

theorem TaskStep.flags {c c' : TaskCall} (hs : TaskStep count c count' c') (h : TaskFlags c) :
    TaskFlags c' ∧ count' + weight (.task c) = count + weight (.task c') := by
  cases hs with
  | ends hpc => exact ⟨⟨fun _ => h.notDone (by simp [hpc]), h.notGivenUp⟩, rfl⟩
  | notes hpc =>
    refine ⟨⟨by simp, h.notGivenUp⟩, ?_⟩
    have hcount := finish_count count (h.notDone (by simp [hpc]))
    simpa [finish] using hcount
  | inTime hpc ht | stopped hpc ht | cancelled hpc => exact ⟨⟨h.notDone, by simp⟩, rfl⟩
  | expires hpc ht => exact ⟨⟨h.notDone, fun _ => h.notGivenUp (by simp [hpc])⟩, rfl⟩
  | abandons hpc ht =>
    have hnd := h.notDone (by simp [ht])
    have hab := h.notGivenUp (by simp [hpc])
    rw [abandon_count count hnd]
    refine ⟨⟨fun _ => ?_, by simp⟩, ?_⟩
    · simp [abandon, hnd]
    · simp [abandon, hab, hnd]

/-- The flags of a call of either kind. -/
def AnyCall.FlagsInv : AnyCall → Prop
  | .thread c => ThreadFlags c
  | .task c => TaskFlags c

theorem CallStep.flags {c c' : AnyCall} (hs : CallStep o count c count' c') (h : c.FlagsInv) :
    c'.FlagsInv ∧ count' + c.weight = count + c'.weight := by
  cases hs with
  | work hs | wait hs | task hs => exact hs.flags h

theorem CallJoin.flags {c : AnyCall} (hj : CallJoin allowed count c) :
    c.FlagsInv ∧ c.weight = 0 := by
  cases hj with
  | thread cid h | endless cid => exact ⟨⟨fun _ => rfl, fun _ => rfl, fun _ => rfl⟩, rfl⟩
  | task => exact ⟨⟨fun _ => rfl, fun _ => rfl⟩, rfl⟩

theorem sum_weight (calls : List AnyCall) : (calls.map weight).sum = calls.countP outlasting := by
  induction calls with
  | nil => rfl
  | cons c calls ih =>
    rw [map_cons, sum_cons, ih, countP_cons, weight]
    split <;> simp [add_comm]

/-- **The counter is the number of calls that outlast their time**, whatever
the handlers do. -/
theorem counter_eq {sys : Sys ℤ AnyCall} (h : CallsReachable o allowed sys) :
    sys.shared = sys.parts.countP outlasting := by
  rw [← sum_weight]
  refine reachable_sum (P := FlagsInv) (h := h) rfl ?_ ?_ ?_
  · intro count c count' c' hs hc
    exact (hs.flags hc).1
  · intro count c count' c' hs hc
    exact (hs.flags hc).2
  · intro count c hj
    exact hj.flags

/-! ## All calls -/

/-- What is known of a call of either kind. -/
def AnyCall.Inv (o : Options) : AnyCall → Prop
  | .thread c => ThreadInv o c
  | .task _ => True

theorem CallStep.inv {c c' : AnyCall} (hs : CallStep o count c count' c') (h : c.Inv o) :
    c'.Inv o := by
  cases hs with
  | work hs => exact ThreadInv.work hs h
  | wait hs => exact ThreadInv.wait hs h
  | task hs => trivial

section

variable (hall : ∀ b, allowed b → ∀ cid, ∃ reply, boxed o cid b = some reply)
include hall

theorem CallJoin.inv {c : AnyCall} (hj : CallJoin allowed count c) : c.Inv o := by
  cases hj with
  | @thread cid b hb =>
    refine ThreadInv.new o cid fun b' hb' => ?_
    obtain rfl : b = b' := by simpa using hb'
    exact hall b hb cid
  | endless cid => exact ThreadInv.new o cid (by simp)
  | task => trivial

theorem kept_of_answers {sys : Sys ℤ AnyCall} (h : CallsReachable o allowed sys) : Kept o sys where
  counter := counter_eq h
  calls := fun c hc => by
    have hinv := (reachable_parts (I := fun _ => True) (P := fun _ c => c.Inv o) trivial
      (fun hs _ hc => ⟨trivial, CallStep.inv hs hc⟩) (fun _ _ _ hd => hd)
      (fun hj _ => CallJoin.inv hall hj) (fun h => h.elim) (fun h => h.elim) h).2
    exact ThreadInv.answeredOnce (hinv _ hc) sys.shared

end

/-- A call whose handler ended and left nothing, after `box[0]`. -/
def ThreadCall.broken (cid : ℤ) (b : Behaviour) : ThreadCall where
  cid := cid
  outcome := some b
  call := ⟨true, true, false⟩
  work := .dead
  wait := .crashed
  box := []
  ended := true
  sent := []
  pauseEnds := 0
  ran := true
  gaveUp := none

/-- A handler that leaves nothing breaks its call. -/
theorem broken_reachable {b : Behaviour} {cid : ℤ} (hb : allowed b) (hnone : boxed o cid b = none) :
    CallsReachable o allowed ⟨0, [.thread (.broken cid b)]⟩ := by
  let born : ThreadCall := { ThreadCall.new cid (some b) with wait := .waiting, work := .ready }
  let running : ThreadCall := { born with call := ⟨true, false, false⟩, work := .running, ran := true }
  let finishing : ThreadCall := { running with work := .finishing }
  let setting : ThreadCall := { finishing with call := ⟨true, true, false⟩, work := .setting }
  let dead : ThreadCall := { setting with ended := true, work := .dead }
  have move {c : ThreadCall} (c' : ThreadCall) (hs : CallStep o 0 (.thread c) 0 (.thread c'))
      (h : CallsReachable o allowed ⟨0, [.thread c]⟩) : CallsReachable o allowed ⟨0, [.thread c']⟩ :=
    h.tail (.act [] [] hs)
  have hnew : CallsReachable o allowed ⟨0, [.thread (.new cid (some b))]⟩ :=
    Relation.ReflTransGen.single (.join [] (.thread cid hb))
  have hborn := move born (.wait (.starts rfl)) hnew
  have hrunning := move running (.work (.begins rfl rfl)) hborn
  have hends : WorkStep o 0 running 0 finishing := by
    have hs : WorkStep o 0 running 0 _ := .ends rfl rfl
    simpa [running, born, finishing, ThreadCall.new, hnone] using hs
  have hfinishing := move finishing (.work hends) hrunning
  have hsetting := move setting (.work (.finishes rfl)) hfinishing
  have hdead := move dead (.work (.sets rfl)) hsetting
  have hlooking := move _ (.wait (.wakes rfl rfl)) hdead
  have hgiving := move _ (.wait (.findsNothing rfl rfl)) hlooking
  have htaking := move _ (.wait (.hadEnded rfl rfl)) hgiving
  exact move _ (.wait (.crashes rfl rfl)) htaking

/-- **The tool deadline protocol.** Every call is answered once, by the right
reply, in all interleavings, exactly where every host function that ends
leaves an answer. -/
theorem calls_kept_iff (o : Options) (allowed : Behaviour → Prop) :
    (∀ sys, CallsReachable o allowed sys → Kept o sys) ↔
      ∀ b, allowed b → ∀ cid, ∃ reply, boxed o cid b = some reply := by
  refine ⟨fun hkept b hb cid => ?_, fun hall sys h => kept_of_answers hall h⟩
  by_contra hno
  have hnone : boxed o cid b = none := by
    cases hbox : boxed o cid b with
    | none => rfl
    | some reply => exact absurd ⟨reply, hbox⟩ hno
  have honce := (hkept _ (broken_reachable hb hnone)).calls (.broken cid b) (mem_singleton.2 rfl)
  obtain ⟨reply, hsent, -⟩ := honce.settled rfl
  simp [ThreadCall.broken] at hsent

/-- A host function that calls `sys.exit()`: `SystemExit` is no `Exception`. -/
def exits : Behaviour :=
  .raises (.mk ⟨[], false⟩ (ascii "SystemExit") (.ok false) (.ok []))

/-- **A host function that exits** leaves its call without a reply. -/
theorem calls_not_kept_of_exits :
    ∃ sys, CallsReachable Unreadable.options (· = exits) sys ∧ ¬ Kept Unreadable.options sys := by
  have hrun : CallsReachable Unreadable.options (· = exits) ⟨0, [.thread (.broken 5 exits)]⟩ :=
    broken_reachable rfl rfl
  refine ⟨_, hrun, fun hkept => ?_⟩
  have honce := hkept.calls (.broken 5 exits) (mem_singleton.2 rfl)
  obtain ⟨reply, hsent, -⟩ := honce.settled rfl
  simp [ThreadCall.broken] at hsent

end Pydeno.Isolated
