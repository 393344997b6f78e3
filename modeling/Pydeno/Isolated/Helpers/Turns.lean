import Pydeno.Isolated.Model.Session
/-!
# What a turn of the pump may do

Whatever the worker sends, a turn of the pump leaves the session's tables
alone. It calls no handler (`Quiet`), or it brings a call frame and calls one
handler of the table that the frame names, under the budgets (`Turned`).
-/

namespace Pydeno.Isolated

open Wire (ascii Obj)

/-! ## Steps that run nothing -/

/-- A step that runs no handler: the tables and the books stay, and a killed
worker stays killed. -/
structure Quiet (rt rt' : Runtime) : Prop where
  handlers : rt'.handlers = rt.handlers
  tokenToHid : rt'.tokenToHid = rt.tokenToHid
  nextHid : rt'.nextHid = rt.nextHid
  hostCalls : rt'.hostCalls = rt.hostCalls
  asyncInflight : rt'.asyncInflight = rt.asyncInflight
  accepted : rt'.accepted = rt.accepted
  killed : rt.killed = true → rt'.killed = true

theorem Quiet.refl (rt : Runtime) : Quiet rt rt := ⟨rfl, rfl, rfl, rfl, rfl, rfl, id⟩

theorem Quiet.trans {a b c : Runtime} (h : Quiet a b) (h' : Quiet b c) : Quiet a c where
  handlers := h'.handlers.trans h.handlers
  tokenToHid := h'.tokenToHid.trans h.tokenToHid
  nextHid := h'.nextHid.trans h.nextHid
  hostCalls := h'.hostCalls.trans h.hostCalls
  asyncInflight := h'.asyncInflight.trans h.asyncInflight
  accepted := h'.accepted.trans h.accepted
  killed := fun hk => h'.killed (h.killed hk)

theorem quiet_kill (w : World) : Quiet w.rt w.kill.rt := ⟨rfl, rfl, rfl, rfl, rfl, rfl, fun _ => rfl⟩

section

variable {o : Options} {env : CallEnv}

theorem quiet_send (reply : Reply) (pipe : Pipe) (w : World) : Quiet w.rt (send reply pipe w).2.rt := by
  unfold send
  split
  · exact .refl _
  · cases pipe with
    | takes => exact ⟨rfl, rfl, rfl, rfl, rfl, rfl, id⟩
    | stalls | broken => exact .refl _

theorem quiet_sendError (cid : ℤ) (e : Exc) (pipe : Pipe) (w : World) :
    Quiet w.rt (sendError o cid e pipe w).2.rt := by
  unfold sendError
  split
  · exact .refl _
  · exact quiet_send _ _ _

theorem quiet_trySend (reply : Reply) (w : World) : Quiet w.rt (trySend o reply env w).2.rt := by
  have hsend := quiet_send reply env.pipe w
  unfold trySend
  split
  next w' hs =>
    rwa [hs] at hsend
  next e w' hs =>
    rw [hs] at hsend
    split
    · exact hsend.trans (quiet_sendError _ _ _ _)
    · split
      · exact hsend
      · split
        · exact hsend.trans (quiet_sendError _ _ _ _)
        · exact hsend

theorem quiet_sendReply (reply : Reply) (onPump : Bool) (w : World) :
    Quiet w.rt (sendReply o reply onPump env w).2.rt := by
  have htry : Quiet w.rt (trySend o reply env w).2.rt := quiet_trySend reply w
  -- telling the pump leaves the runtime alone
  have htell : ∀ w' : World,
      (if onPump then { w' with pump := w'.pump.endCall env.endAt } else w').rt = w'.rt := by
    intro w'
    split <;> rfl
  simp only [sendReply, htell]
  split
  · exact .refl _
  · split
    next w' hs =>
      rwa [hs] at htry
    next e w' hs =>
      rw [hs] at htry
      split
      · exact htry.trans (quiet_kill w')
      · split <;> exact htry

theorem quiet_replyError (cid : ℤ) (e : Exc) (onPump : Bool) (w : World) :
    Quiet w.rt (replyError o cid e onPump env w).2.rt := by
  unfold replyError
  split
  · exact .refl _
  · exact quiet_sendReply _ _ _

theorem quiet_checkMemory (usage : Usage) (w : World) : Quiet w.rt (checkMemory o usage w).2.rt := by
  unfold checkMemory
  split
  · exact quiet_kill w
  · split
    · split
      · exact quiet_kill w
      · exact .refl _
    · exact .refl _

theorem quiet_supervise (look : Look) (w : World) : Quiet w.rt (supervise o look w).2.rt := by
  have hmem := quiet_checkMemory (o := o) look.usage w
  unfold supervise
  split
  · exact quiet_kill w
  · split
    · exact quiet_kill w
    · split
      next e w' hc =>
        rwa [hc] at hmem
      next cpu w' hc =>
        rw [hc] at hmem
        split
        · split
          · exact hmem.trans (quiet_kill w')
          · exact hmem
        · exact hmem

theorem quiet_pumpExcept (unsafeText : ℕ → Bool) (e : Exc) (w : World) :
    Quiet w.rt (pumpExcept unsafeText e w).2.rt := by
  unfold pumpExcept
  split
  · exact .refl _
  · repeat' split
    all_goals exact quiet_kill w

theorem quiet_watch (watch : Option Watch) (w : World) : Quiet w.rt (Watch.act watch w).rt := by
  cases watch with
  | none => exact .refl _
  | some v => exact quiet_kill w

end

/-! ## Running a handler -/

variable {env : CallEnv} {o : Options} {entry : Entry} {hid : Obj} {loop : Bool}

theorem quiet_runSyncHandler (entry : Entry) (cid : ℤ) (onPump : Bool) (w : World) :
    Quiet (w.accept entry).rt (runSyncHandler o entry cid onPump env w).2.rt := by
  simp only [runSyncHandler]
  split
  · exact quiet_sendReply _ _ _
  · split
    · exact quiet_replyError _ _ _ _
    · exact .refl _

/-- A handler under `tool_timeout` is run, unless its thread cannot be
started. -/
theorem quiet_runTimedHandler (entry : Entry) (cid : ℤ) (onPump : Bool) (limit : ℚ) (w : World) :
    Quiet w.rt (runTimedHandler o entry cid onPump limit env w).2.rt ∨
      Quiet (w.accept entry).rt (runTimedHandler o entry cid onPump limit env w).2.rt := by
  simp only [runTimedHandler]
  split
  · exact .inl (quiet_replyError _ _ _ _)
  · right
    split
    · exact quiet_sendReply _ _ _
    · exact .refl _
  · right
    split
    · have hreply : Quiet (w.accept entry).kill.rt
          (replyError o cid toolTimeoutError onPump env (w.accept entry).kill).2.rt :=
        quiet_replyError _ _ _ _
      have hboth := (quiet_kill (w.accept entry)).trans hreply
      split
      next e w' hr =>
        rwa [hr] at hboth
      next w' hr =>
        rwa [hr] at hboth
    · exact quiet_replyError _ _ _ _

theorem quiet_accept_of_quiet {w w' : World} (entry : Entry) (h : Quiet w.rt w'.rt) :
    Quiet (w.accept entry).rt (w'.accept entry).rt := by
  unfold World.accept
  split
  · exact ⟨h.handlers, h.tokenToHid, h.nextHid, h.hostCalls, h.asyncInflight,
      by simp [h.accepted], h.killed⟩
  · exact h

/-- The watchdog kills before the handler or after it, which is quiet either
way. -/
theorem quiet_watched {e : CallEnv} {w w' : World}
    (h : Quiet (if e.watchFirst then Watch.act e.watch w else w).rt w'.rt ∨
      Quiet ((if e.watchFirst then Watch.act e.watch w else w).accept entry).rt w'.rt) :
    Quiet w.rt (if e.watchFirst then w' else Watch.act e.watch w').rt ∨
      Quiet (w.accept entry).rt (if e.watchFirst then w' else Watch.act e.watch w').rt := by
  by_cases hf : e.watchFirst = true
  · have hact := quiet_watch e.watch w
    simp only [if_pos hf] at h ⊢
    exact h.imp hact.trans (quiet_accept_of_quiet entry hact).trans
  · have hact := quiet_watch e.watch w'
    simp only [if_neg hf] at h ⊢
    exact h.imp (·.trans hact) (·.trans hact)

theorem quiet_runWatched (o : Options) (env : CallEnv) (entry : Entry) (cid : ℤ) (onPump : Bool)
    (limit : Option ℚ) (w : World) : Quiet w.rt (runWatched o entry cid onPump limit env w).2.rt ∨
      Quiet (w.accept entry).rt (runWatched o entry cid onPump limit env w).2.rt := by
  simp only [runWatched]
  cases limit with
  | none =>
    split <;> exact quiet_watched (.inr (quiet_runSyncHandler _ _ _ _))
  | some limit =>
    split <;> exact quiet_watched (quiet_runTimedHandler _ _ _ _ _)

/-! ## A call frame -/

/-- Two numbers a Python object equals are one. -/
theorem eqInt_inj {o : Obj} {a b : ℤ} (hint : isInt o = true) (ha : eqInt o a = true)
    (hb : eqInt o b = true) : a = b := by
  cases o with
  | int i | bool v =>
    simp only [eqInt, decide_eq_true_eq] at ha hb
    omega
  | _ => cases hint

/-- A frame is answered by a handler of the table that it names, or by none. -/
theorem lookup_eq_some {rt : Runtime} (h : lookup hid rt = .ok (some entry)) :
    entry = revokedEntry ∨ ∃ k handler, entry = ⟨some k, handler⟩ ∧ (k, handler) ∈ rt.handlers ∧
      isInt hid = true ∧ eqInt hid k = true := by
  unfold lookup at h
  split at h
  next k handler hfind =>
    right
    split at hfind
    next hint =>
      have hmem := List.mem_of_find?_eq_some hfind
      have hnamed := List.find?_some hfind
      obtain rfl : (⟨some k, handler⟩ : Entry) = entry := by simpa using h
      exact ⟨k, handler, rfl, hmem, hint, hnamed⟩
    · cases hfind
  · left
    cases hr : inRevoked hid rt.revokedHids with
    | error e => simp [hr, Except.map] at h
    | ok revoked =>
      cases revoked with
      | true =>
        obtain rfl : revokedEntry = entry := by simpa [hr, Except.map] using h
        rfl
      | false => simp [hr, Except.map] at h

/-- The books of one call: what it adds to the runs, `[]` or one handler, and
what to the counters. -/
structure Booked (o : Options) (loop : Bool) (hid : Obj) (rt rt' : Runtime) (h : ℕ)
    (handler : Handler) : Prop where
  named : eqInt hid h = true
  mem : (h, handler) ∈ rt.handlers
  accepted : rt'.accepted = rt.accepted ++ [h]
  console : o.consoleHid = some h → rt'.hostCalls = rt.hostCalls ∧ rt'.asyncInflight = rt.asyncInflight
  tool : o.consoleHid ≠ some h → rt'.hostCalls = rt.hostCalls + 1 ∧
    ∀ most, o.maxHostCalls = some most → rt'.hostCalls ≤ most
  onThread : o.consoleHid ≠ some h → (loop && handler.isAsync) = false →
    rt'.asyncInflight = rt.asyncInflight
  onLoop : o.consoleHid ≠ some h → (loop && handler.isAsync) = true →
    rt'.asyncInflight = rt.asyncInflight + 1 ∧
      ∀ most : ℕ, o.maxInflight = some most → rt.asyncInflight < most

/-- **What a turn may do to the session**: the tables stay; no handler is run,
or one of the table that the call frame names. -/
structure Turned (o : Options) (loop : Bool) (hid : Obj) (rt rt' : Runtime) : Prop where
  handlers : rt'.handlers = rt.handlers
  tokenToHid : rt'.tokenToHid = rt.tokenToHid
  nextHid : rt'.nextHid = rt.nextHid
  killed : rt.killed = true → rt'.killed = true
  books : (rt'.accepted = rt.accepted ∧ rt'.asyncInflight = rt.asyncInflight ∧
      rt.hostCalls ≤ rt'.hostCalls) ∨
    ∃ h handler, Booked o loop hid rt rt' h handler

theorem Quiet.turned {rt rt' : Runtime} (h : Quiet rt rt') : Turned o loop hid rt rt' :=
  ⟨h.handlers, h.tokenToHid, h.nextHid, h.killed, .inl ⟨h.accepted, h.asyncInflight, h.hostCalls.ge⟩⟩

/-- Which pump is told does not matter to the runtime. -/
theorem accept_rt (w : World) (pump : Pump) (entry : Entry) :
    ({ w with pump := pump }.accept entry).rt = (w.accept entry).rt := by
  unfold World.accept
  split <;> rfl

/-- The session with one more asynchronous call on its books. -/
def World.counted (w : World) : World :=
  { w with rt := { w.rt with asyncInflight := w.rt.asyncInflight + 1 } }

/-- What `toolCall` does: it runs nothing, runs the handler here, or queues it
on the loop within the in-flight cap. -/
theorem toolCall_cases (o : Options) (env : CallEnv) (loop : Bool) (hid : Obj) (entry : Entry)
    (cid : ℤ) (w : World) : Quiet w.rt (toolCall o loop hid entry cid env w).2.rt ∨
      ((loop && entry.handler.isAsync) = false ∧
        Quiet (w.accept entry).rt (toolCall o loop hid entry cid env w).2.rt) ∨
      ((loop && entry.handler.isAsync) = true ∧
        (∀ most : ℕ, o.maxInflight = some most → w.rt.asyncInflight < most) ∧
        Quiet (w.counted.accept entry).rt (toolCall o loop hid entry cid env w).2.rt) := by
  simp only [toolCall]
  split
  · exact .inl (quiet_sendReply _ _ _)
  next hfull =>
    split
    next hasync =>
      split
      · refine .inr (.inr ⟨by rwa [Bool.and_comm], fun most hmost => ?_, ?_⟩)
        · simp only [hmost, Option.filter_some, ite_eq_right_iff, reduceCtorEq, imp_false] at hfull
          simp only [Bool.or_eq_true, decide_eq_true_eq, not_or, not_le] at hfull
          exact hfull.2
        · unfold World.accept
          split <;> exact .refl _
      · exact .inl (quiet_replyError cid _ true { w with pump := w.pump.beginCall env.beginAt })
    next hasync =>
      have hsync : (loop && entry.handler.isAsync) = false := by
        rw [Bool.and_comm]
        simpa using hasync
      generalize (if (w.rt.toolHids.any (fun h : ℕ => eqInt hid h) && !entry.handler.untimed) = true
        then o.toolTimeout else none) = limit
      rcases quiet_runWatched o env entry cid true limit
        { w with pump := w.pump.beginCall env.beginAt } with h | h
      · exact .inl h
      · rw [accept_rt] at h
        exact .inr (.inl ⟨hsync, h⟩)

/-- A console call runs at most the console's handler. -/
theorem console_turned {w : World} {rt' : Runtime} (hlook : lookup hid w.rt = .ok (some entry))
    (hconsole : o.consoleHid.any (fun c : ℕ => eqInt hid c) = true)
    (h : Quiet w.rt rt' ∨ Quiet (w.accept entry).rt rt') : Turned o loop hid w.rt rt' := by
  rcases h with h | h
  · exact h.turned
  rcases lookup_eq_some hlook with rfl | ⟨k, handler, rfl, hmem, hint, hnamed⟩
  · exact h.turned
  obtain ⟨c, hc, hceq⟩ : ∃ c, o.consoleHid = some c ∧ eqInt hid c = true := by
    simpa [Option.any_eq_true] using hconsole
  have hkc : k = c := by exact_mod_cast eqInt_inj hint hnamed hceq
  subst hkc
  refine ⟨h.handlers, h.tokenToHid, h.nextHid, h.killed, .inr ⟨k, handler, ?_⟩⟩
  exact ⟨hnamed, hmem, h.accepted, fun _ => ⟨h.hostCalls, h.asyncInflight⟩, fun hne => absurd hc hne,
    fun hne => absurd hc hne, fun hne => absurd hc hne⟩

/-- The session with one more host call on its books. -/
def World.charged (w : World) : World :=
  { w with rt := { w.rt with hostCalls := w.rt.hostCalls + 1 } }

/-- A tool call within the budget runs at most the handler it names. -/
theorem tool_turned {cid : ℤ} {w : World} (hlook : lookup hid w.rt = .ok (some entry))
    (hconsole : o.consoleHid.any (fun c : ℕ => eqInt hid c) = false)
    (hmost : ∀ most, o.maxHostCalls = some most → w.charged.rt.hostCalls ≤ most) :
    Turned o loop hid w.rt (toolCall o loop hid entry cid env w.charged).2.rt := by
  have hquiet : ∀ {rt' : Runtime}, Quiet w.charged.rt rt' → Turned o loop hid w.rt rt' := by
    intro rt' h
    exact ⟨h.handlers, h.tokenToHid, h.nextHid, h.killed,
      .inl ⟨h.accepted, h.asyncInflight, by rw [h.hostCalls]; exact Nat.le_succ _⟩⟩
  rcases lookup_eq_some hlook with rfl | ⟨k, handler, rfl, hmem, hint, hnamed⟩
  · -- `_revoked_handler` is no handler of the table, and no coroutine function
    rcases toolCall_cases o env loop hid revokedEntry cid w.charged with
      h | ⟨-, h⟩ | ⟨hasync, -⟩
    · exact hquiet h
    · exact hquiet h
    · simp [revokedEntry] at hasync
  have hne : o.consoleHid ≠ some k := by
    intro hc
    simp [hc, hnamed] at hconsole
  rcases toolCall_cases o env loop hid ⟨some k, handler⟩ cid w.charged with
    h | ⟨hsync, h⟩ | ⟨hasync, hcap, h⟩
  · exact hquiet h
  · refine ⟨h.handlers, h.tokenToHid, h.nextHid, h.killed, .inr ⟨k, handler, ?_⟩⟩
    exact ⟨hnamed, hmem, h.accepted, fun hc => absurd hc hne,
      fun _ => ⟨h.hostCalls, h.hostCalls ▸ hmost⟩,
      fun _ _ => h.asyncInflight, fun _ ha => nomatch hsync.symm.trans ha⟩
  · refine ⟨h.handlers, h.tokenToHid, h.nextHid, h.killed, .inr ⟨k, handler, ?_⟩⟩
    exact ⟨hnamed, hmem, h.accepted, fun hc => absurd hc hne,
      fun _ => ⟨h.hostCalls, h.hostCalls ▸ hmost⟩,
      fun _ ha => (nomatch hasync.symm.trans ha), fun _ _ => ⟨h.asyncInflight, hcap⟩⟩

/-- **A call frame** runs at most the handler of the table it names. -/
theorem onCall_turned {Date : Type} (loop : Bool) (message : Message Date) (w : World) :
    Turned o loop (plainField "hid" message) w.rt (onCall o loop message env w).2.rt := by
  simp only [onCall]
  split
  · exact (Quiet.refl _).turned
  next found hlook =>
    split
    next cid entry hcid hargs =>
      split
      next hconsole =>
        have hrun := quiet_runWatched o env entry cid false none
          { w with pump := w.pump.beginConsole env.beginAt }
        rw [accept_rt] at hrun
        exact console_turned hlook hconsole hrun
      next hconsole =>
        have htool : o.consoleHid.any (fun c : ℕ => eqInt (plainField "hid" message) c) = false := by
          simpa using hconsole
        split
        · -- over the budget: nothing is run, but the call is charged
          exact ⟨rfl, rfl, rfl, id, .inl ⟨rfl, rfl, Nat.le_succ _⟩⟩
        next hbudget =>
          refine tool_turned hlook htool fun most hmost => ?_
          simp only [hmost, Option.filter_some, ite_eq_right_iff, reduceCtorEq, imp_false,
            decide_eq_true_eq, not_lt] at hbudget
          exact hbudget
    · exact (Quiet.refl _).turned

/-! ## A turn of the pump -/

/-- A turn after a quiet step. -/
theorem Quiet.then_turned {a b c : Runtime} (hq : Quiet a b) (h : Turned o loop hid b c) :
    Turned o loop hid a c where
  handlers := h.handlers.trans hq.handlers
  tokenToHid := h.tokenToHid.trans hq.tokenToHid
  nextHid := h.nextHid.trans hq.nextHid
  killed := fun hk => h.killed (hq.killed hk)
  books := by
    rcases h.books with ⟨hr, ha, hc⟩ | ⟨k, handler, hb⟩
    · exact .inl ⟨hr.trans hq.accepted, ha.trans hq.asyncInflight, hq.hostCalls ▸ hc⟩
    · refine .inr ⟨k, handler, ⟨hb.named, hq.handlers ▸ hb.mem, hq.accepted ▸ hb.accepted,
        ?_, ?_, ?_, ?_⟩⟩
      · rw [← hq.hostCalls, ← hq.asyncInflight]; exact hb.console
      · rw [← hq.hostCalls]; exact hb.tool
      · rw [← hq.asyncInflight]; exact hb.onThread
      · rw [← hq.asyncInflight]; exact hb.onLoop

section

variable (py : Wire.Python) (repr : List ℕ → String) (unsafeText : ℕ → Bool)

/-- The turn brings a call frame with this `hid` field. -/
def Turn.Calls (t : Turn) (hid : Obj) : Prop :=
  ∃ data message, t.read = .payload data ∧ Wire.loadsDecoded py data = .ok message ∧
    messageKind message = ascii "call" ∧ hid = plainField "hid" message

theorem onMessage_turned {o : Options} (loop : Bool) (cmd : ℕ) (t : Turn) (message : Message py.Date)
    (w : World) : Quiet w.rt (onMessage py repr unsafeText o loop cmd t message w).2.rt ∨
      (messageKind message = ascii "call" ∧ Turned o loop (plainField "hid" message) w.rt
        (onMessage py repr unsafeText o loop cmd t message w).2.rt) := by
  unfold onMessage
  split
  next hkind =>
    have hcall : Turned o loop (plainField "hid" message) w.rt (onCall o loop message t.call w).2.rt :=
      onCall_turned loop message w
    right
    refine ⟨hkind, ?_⟩
    split
    next e w' hc =>
      rwa [hc] at hcall
    next w' hc =>
      rwa [hc] at hcall
  · left
    split
    · have hmem : Quiet w.rt (checkMemory o t.usage w).2.rt := quiet_checkMemory t.usage w
      split
      next e w' hc =>
        rwa [hc] at hmem
      next cpu w' hc =>
        rw [hc] at hmem
        split <;> exact hmem
    · exact .refl _

/-- **A turn of the pump** is quiet, or it brings a call frame and runs at most
the handler that one names. -/
theorem pumpBody_turned {o : Options} (loop : Bool) (cmd : ℕ) (t : Turn) (w : World) :
    Quiet w.rt (pumpBody py repr unsafeText o loop cmd t w).2.rt ∨
      ∃ hid, t.Calls py hid ∧
        Turned o loop hid w.rt (pumpBody py repr unsafeText o loop cmd t w).2.rt := by
  have hlook : Quiet w.rt (supervise o t.look w).2.rt := quiet_supervise t.look w
  have hdue : Quiet w.rt (if t.due then supervise o t.look w else (.ok (), w)).2.rt := by
    split
    · exact hlook
    · exact .refl _
  unfold pumpBody
  split
  · left
    split
    next e w' hs =>
      rwa [hs] at hlook
    next w' hs =>
      rwa [hs] at hlook
  · exact .inl (.refl _)
  · exact .inl (.refl _)
  · exact .inl (.refl _)
  · left
    split
    next e w' hs =>
      rwa [hs] at hdue
    next w' hs =>
      rw [hs] at hdue
      exact hdue.trans (quiet_kill w')
  next data hread =>
    split
    next e w' hs =>
      rw [hs] at hdue
      exact .inl hdue
    next w' hs =>
      rw [hs] at hdue
      split
      · exact .inl hdue
      next message hmsg =>
        rcases onMessage_turned py repr unsafeText loop cmd t message w' with h | ⟨hkind, h⟩
        · exact .inl (hdue.trans h)
        · exact .inr ⟨_, ⟨data, message, hread, hmsg, hkind, rfl⟩, hdue.then_turned h⟩

end

end Pydeno.Isolated
