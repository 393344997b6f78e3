import Pydeno.Isolated.Helpers.Tokens
import Pydeno.Isolated.Helpers.Turns
/-!
# The ledger of a session

The tables of a session agree with what its owner was told (`Ledger`), and its
counters with what was run (`Books`). Each kind of event keeps both, so every
run does (`kempt_run`).
-/

namespace Pydeno.Isolated

open List

open Wire (Obj)

attribute [simp] Session.new Op.register Runtime.registerAll

/-! ## The ledger -/

/-- The host functions the session's owner has bound: hooks for good, those of
the operation in flight, and those whose token is not revoked. -/
def Session.Bound (s : Session) (h : ℕ) : Prop :=
  h ∈ s.hooks ∨ (∃ c, s.inFlight = some c ∧ h ∈ c.2.hids) ∨ ∃ token, (token, h) ∈ s.live

/-- The operation in flight has fresh ids of its own. -/
structure Pending (s : Session) (cmd : Command) : Prop where
  below : ∀ h ∈ cmd.hids, h < s.world.rt.nextHid
  nodup : cmd.hids.Nodup
  fresh : ∀ h ∈ cmd.hids, h ∉ s.hooks ∧ ∀ e ∈ s.world.rt.tokenToHid, e.2 ≠ h
  names : ∀ hids, cmd = .bindObject hids → (hids.map Prod.fst).Nodup

/-- **The tables agree with what the owner was told.** -/
structure Ledger (s : Session) : Prop where
  bound : s.world.rt.killed = false → ∀ e ∈ s.world.rt.handlers, s.Bound e.1
  below : ∀ e ∈ s.world.rt.handlers, e.1 < s.world.rt.nextHid
  nodup : (s.world.rt.handlers.map Prod.fst).Nodup
  hooks : ∀ h ∈ s.hooks, h < s.world.rt.nextHid ∧ ∀ e ∈ s.world.rt.tokenToHid, e.2 ≠ h
  tokens : ∀ e ∈ s.world.rt.tokenToHid, e.2 < s.world.rt.nextHid
  tokensNodup : (s.world.rt.tokenToHid.map Prod.fst).Nodup
  hidsNodup : (s.world.rt.tokenToHid.map Prod.snd).Nodup
  live : ∀ e ∈ s.live, e ∈ s.world.rt.tokenToHid
  pending : ∀ c, s.inFlight = some c → Pending s c.2

/-- **The books**: calls against the budget, asynchronous ones against the cap,
runs against calls. -/
structure Books (o : Options) (s : Session) : Prop where
  console : ∀ c, o.consoleHid = some c → c < s.world.rt.nextHid ∧
    ∀ handler, (c, handler) ∈ s.world.rt.handlers → handler.isAsync = false
  runs : s.world.rt.accepted.countP (fun h => o.consoleHid ≠ some h) ≤ s.world.rt.hostCalls
  budget : ∀ most, o.maxHostCalls = some most →
    s.world.rt.accepted.countP (fun h => o.consoleHid ≠ some h) ≤ most
  running : s.world.rt.asyncInflight = s.waiting.length + s.running.length
  cap : ∀ most : ℕ, o.maxInflight = some most → s.world.rt.asyncInflight ≤ most
  answers : ∀ p : ℕ → Bool, s.runs.countP p + s.waiting.countP p ≤ s.world.rt.accepted.countP p

/-! ## Operations begin -/

/-- What an operation registers: fresh ids, and nothing else changes. -/
structure Opened (rt : Runtime) (cmd : Command) (rt' : Runtime) : Prop where
  handlers : ∃ new, rt'.handlers = rt.handlers ++ new ∧ new.map Prod.fst = cmd.hids
  fresh : ∀ h ∈ cmd.hids, rt.nextHid ≤ h ∧ h < rt'.nextHid
  nodup : cmd.hids.Nodup
  nextHid : rt.nextHid ≤ rt'.nextHid
  same : rt'.tokenToHid = rt.tokenToHid ∧ rt'.hostCalls = rt.hostCalls ∧
    rt'.asyncInflight = rt.asyncInflight ∧ rt'.accepted = rt.accepted ∧ rt'.killed = rt.killed
  names : ∀ hids, cmd = .bindObject hids → (hids.map Prod.fst).Nodup

theorem registerAll_keys (entries : List (List ℕ × Handler)) (rt : Runtime) :
    (rt.registerAll entries).1.map Prod.fst = entries.map Prod.fst := by
  induction entries generalizing rt with
  | nil => rfl
  | cons e rest ih => simp [ih]

theorem registerAll_opened (entries : List (List ℕ × Handler))
    (hkeys : (entries.map Prod.fst).Nodup) (rt : Runtime) :
    Opened rt (.bindObject (rt.registerAll entries).1) (rt.registerAll entries).2 := by
  have hnames : ∀ hids, Command.bindObject (rt.registerAll entries).1 = .bindObject hids →
      (hids.map Prod.fst).Nodup := by
    rintro hids heq
    obtain rfl := Command.bindObject.inj heq
    rwa [registerAll_keys]
  induction entries generalizing rt with
  | nil =>
    exact ⟨⟨[], by simp [Command.hids]⟩, by simp [Command.hids],
      by simp [Command.hids], le_refl _, ⟨rfl, rfl, rfl, rfl, rfl⟩, hnames⟩
  | cons e rest ih =>
    obtain ⟨key, handler⟩ := e
    rw [map_cons, nodup_cons] at hkeys
    have h := ih hkeys.2 (rt.registerTool handler) (by
      rintro hids heq
      obtain rfl := Command.bindObject.inj heq
      rw [registerAll_keys]
      exact hkeys.2)
    obtain ⟨new, hnew, hids⟩ := h.handlers
    have hnext : rt.nextHid + 1 ≤ ((rt.registerTool handler).registerAll rest).2.nextHid := h.nextHid
    refine ⟨⟨(rt.nextHid, handler) :: new, ?_, ?_⟩, ?_, ?_, ?_, h.same, hnames⟩
    · simp only [Runtime.registerAll, hnew]
      simp [Runtime.registerTool, Runtime.register]
    · simpa [Command.hids] using hids
    · intro k hk
      rcases mem_cons.1 hk with rfl | hk
      · exact ⟨le_refl _, hnext⟩
      · obtain ⟨hlo, hhi⟩ := h.fresh k hk
        exact ⟨le_trans (Nat.le_succ _) hlo, hhi⟩
    · refine nodup_cons.2 ⟨fun hmem => ?_, h.nodup⟩
      have hlo : rt.nextHid + 1 ≤ rt.nextHid := (h.fresh _ hmem).1
      omega
    · exact le_trans (Nat.le_succ _) hnext

theorem register_opened (op : Op) (rt : Runtime) : Opened rt (op.register rt).1 (op.register rt).2 := by
  cases op with
  | bindFunction handler =>
    exact ⟨⟨[(rt.nextHid, handler)], rfl, rfl⟩,
      by simp [Command.hids, Runtime.registerTool, Runtime.register], by simp [Command.hids],
      Nat.le_succ _, ⟨rfl, rfl, rfl, rfl, rfl⟩, by simp⟩
  | bindObject entries distinct => exact registerAll_opened entries distinct rt
  | setHook handler =>
    exact ⟨⟨[(rt.nextHid, handler)], rfl, rfl⟩, by simp [Command.hids, Runtime.register],
      by simp [Command.hids], Nat.le_succ _, ⟨rfl, rfl, rfl, rfl, rfl⟩,
      by simp⟩
  | command =>
    exact ⟨⟨[], by simp, rfl⟩, by simp [Command.hids],
      by simp [Command.hids], le_refl _, ⟨rfl, rfl, rfl, rfl, rfl⟩, by simp⟩

/-- The ids of the table stay below the next one and differ, with the new
ones. -/
theorem Opened.table {rt rt' : Runtime} {cmd : Command} (h : Opened rt cmd rt')
    (hbelow : ∀ e ∈ rt.handlers, e.1 < rt.nextHid) (hnodup : (rt.handlers.map Prod.fst).Nodup) :
    (∀ e ∈ rt'.handlers, e.1 < rt'.nextHid) ∧ (rt'.handlers.map Prod.fst).Nodup := by
  obtain ⟨new, hnew, hids⟩ := h.handlers
  rw [hnew]
  constructor
  · intro e he
    rcases mem_append.1 he with he | he
    · exact lt_of_lt_of_le (hbelow e he) h.nextHid
    · exact (h.fresh e.1 (hids ▸ mem_map.2 ⟨e, he, rfl⟩)).2
  · rw [map_append, hids, nodup_append]
    refine ⟨hnodup, h.nodup, fun a ha b hb heq => ?_⟩
    obtain ⟨e, he, rfl⟩ := mem_map.1 ha
    have := hbelow e he
    have := (h.fresh b hb).1
    omega

/-- Dropping what was just registered restores the table. -/
theorem Opened.popAll {rt rt' : Runtime} {cmd : Command} (h : Opened rt cmd rt')
    (hbelow : ∀ e ∈ rt.handlers, e.1 < rt.nextHid) : (rt'.popAll cmd.hids).handlers = rt.handlers := by
  obtain ⟨new, hnew, hids⟩ := h.handlers
  have hold : rt.handlers.filter (fun e => e.1 ∉ cmd.hids) = rt.handlers := by
    rw [filter_eq_self]
    intro e he
    have hlt := hbelow e he
    simp only [decide_eq_true_eq]
    intro hmem
    have := (h.fresh e.1 hmem).1
    omega
  have hnone : new.filter (fun e => e.1 ∉ cmd.hids) = [] := by
    rw [filter_eq_nil_iff]
    intro e he
    have hmem : e.1 ∈ cmd.hids := hids ▸ mem_map.2 ⟨e, he, rfl⟩
    simp [hmem]
  unfold Runtime.popAll
  rw [hnew, filter_append, hold, hnone, append_nil]

variable {s : Session} {c : ℕ × Command} {o : Options}

theorem Ledger.begin (h : Ledger s) (hidle : s.inFlight = none) (op : Op) (loop : Bool)
    (pump : Pump) : Ledger (s.begin op loop pump) := by
  have hop := register_opened op s.world.rt
  obtain ⟨htok, -, -, -, hkilled⟩ := hop.same
  have hnext := hop.nextHid
  simp only [Session.begin]
  split
  · -- a closed runtime refuses the command
    have hpop := hop.popAll h.below
    refine ⟨?_, ?_, ?_, ?_, ?_, ?_, ?_, ?_, ?_⟩
    · intro hk e he
      rw [hpop] at he
      exact h.bound (hkilled ▸ hk) e he
    · intro e he
      rw [hpop] at he
      exact lt_of_lt_of_le (h.below e he) hnext
    · rw [hpop]; exact h.nodup
    · intro k hk
      exact ⟨lt_of_lt_of_le (h.hooks k hk).1 hnext, fun e he => (h.hooks k hk).2 e (htok ▸ he)⟩
    · exact fun e he => lt_of_lt_of_le (h.tokens e (htok ▸ he)) hnext
    · exact htok ▸ h.tokensNodup
    · exact htok ▸ h.hidsNodup
    · exact fun e he => htok ▸ h.live e he
    · intro c hc
      rw [hidle] at hc
      cases hc
  · obtain ⟨hbelow, hnodup⟩ := hop.table h.below h.nodup
    refine ⟨?_, hbelow, hnodup, ?_, ?_, ?_, ?_, ?_, ?_⟩
    · intro hk e he
      obtain ⟨new, hnew, hids⟩ := hop.handlers
      rw [hnew] at he
      rcases mem_append.1 he with he | he
      · rcases h.bound (hkilled ▸ hk) e he with hb | ⟨c, hc, -⟩ | hb
        · exact .inl hb
        · rw [hidle] at hc
          cases hc
        · exact .inr (.inr hb)
      · exact .inr (.inl ⟨_, rfl, hids ▸ mem_map.2 ⟨e, he, rfl⟩⟩)
    · intro k hk
      exact ⟨lt_of_lt_of_le (h.hooks k hk).1 hnext, fun e he => (h.hooks k hk).2 e (htok ▸ he)⟩
    · exact fun e he => lt_of_lt_of_le (h.tokens e (htok ▸ he)) hnext
    · exact htok ▸ h.tokensNodup
    · exact htok ▸ h.hidsNodup
    · exact fun e he => htok ▸ h.live e he
    · intro c hc
      cases hc
      refine ⟨fun k hk => (hop.fresh k hk).2, hop.nodup, fun k hk => ⟨fun hmem => ?_, fun e he => ?_⟩,
        hop.names⟩
      · have := (h.hooks k hmem).1
        have := (hop.fresh k hk).1
        omega
      · have := h.tokens e (htok ▸ he)
        have := (hop.fresh k hk).1
        omega

/-! ## Operations end -/

/-- A worker that lives now lived before. -/
theorem alive_before {rt rt' : Runtime} (h : rt.killed = true → rt'.killed = true)
    (hk : rt'.killed = false) : rt.killed = false := by
  cases hs : rt.killed with
  | false => rfl
  | true => nomatch (h hs).symm.trans hk

/-- A step that leaves the tables and the owner's knowledge alone. -/
theorem Ledger.of_tables {s' : Session} (h : Ledger s)
    (hhandlers : s'.world.rt.handlers = s.world.rt.handlers)
    (htokens : s'.world.rt.tokenToHid = s.world.rt.tokenToHid)
    (hnext : s'.world.rt.nextHid = s.world.rt.nextHid)
    (hkilled : s.world.rt.killed = true → s'.world.rt.killed = true)
    (hhooks : s'.hooks = s.hooks) (hlive : s'.live = s.live) (hflight : s'.inFlight = s.inFlight) :
    Ledger s' := by
  have hbound : ∀ k, s'.Bound k ↔ s.Bound k := by
    intro k
    simp only [Session.Bound, hhooks, hlive, hflight]
  refine ⟨?_, ?_, ?_, ?_, ?_, ?_, ?_, ?_, ?_⟩
  · intro hk e he
    rw [hbound]
    exact h.bound (alive_before hkilled hk) e (hhandlers ▸ he)
  · rw [hhandlers, hnext]; exact h.below
  · rw [hhandlers]; exact h.nodup
  · rw [hhooks, hnext, htokens]; exact h.hooks
  · rw [htokens, hnext]; exact h.tokens
  · rw [htokens]; exact h.tokensNodup
  · rw [htokens]; exact h.hidsNodup
  · rw [hlive, htokens]; exact h.live
  · intro c hc
    have hp := h.pending c (hflight ▸ hc)
    exact ⟨by rw [hnext]; exact hp.below, hp.nodup, by rw [hhooks, htokens]; exact hp.fresh, hp.names⟩

/-- A failed operation drops its ids. -/
theorem Ledger.failed (h : Ledger s) (hc : s.inFlight = some c) : Ledger (s.failed c.2) := by
  refine ⟨?_, ?_, ?_, h.hooks, h.tokens, h.tokensNodup, h.hidsNodup, h.live, by simp [Session.failed]⟩
  · intro hk e he
    obtain ⟨he, hne⟩ := mem_filter.1 he
    rcases h.bound hk e he with hb | ⟨c', hc', hb⟩ | hb
    · exact .inl hb
    · rw [hc] at hc'
      obtain rfl := Option.some.inj hc'
      simp [hb] at hne
    · exact .inr (.inr hb)
  · exact fun e he => h.below e (mem_filter.1 he).1
  · exact h.nodup.sublist (filter_sublist.map _)

theorem Ledger.kill (h : Ledger s) : Ledger { s with world := s.world.kill } :=
  h.of_tables rfl rfl rfl (fun _ => rfl) rfl rfl rfl

/-- The tokens a bind registers are the owner's from then on. -/
theorem Ledger.registered {tokens : List (ℤ × ℕ)} (h : Ledger s)
    (hc : s.inFlight = some c) (htokens : Registers c.2.hids tokens) : Ledger (s.bound tokens) := by
  have hreg := registerTokens_registered tokens s.world
  have hp := h.pending c hc
  obtain ⟨hnext, -⟩ := hreg.same
  obtain ⟨done, hpre, hdone⟩ := hreg.done
  -- a token in the table is an old one, or one of the bind's
  have hmem : ∀ e ∈ (registerTokens tokens s.world).2.rt.tokenToHid,
      e ∈ s.world.rt.tokenToHid ∨ e.2 ∈ c.2.hids := by
    intro e he
    rw [hdone] at he
    exact (mem_append.1 he).imp_right fun he => htokens.mem e (hpre.subset he)
  have hhooks : ∀ k ∈ s.hooks, k < (registerTokens tokens s.world).2.rt.nextHid ∧
      ∀ e ∈ (registerTokens tokens s.world).2.rt.tokenToHid, e.2 ≠ k := by
    intro k hk
    refine ⟨hnext ▸ (h.hooks k hk).1, fun e he => ?_⟩
    rcases hmem e he with he | he
    · exact (h.hooks k hk).2 e he
    · rintro rfl
      exact (hp.fresh _ he).1 hk
  have hbelow : ∀ e ∈ (registerTokens tokens s.world).2.rt.tokenToHid,
      e.2 < (registerTokens tokens s.world).2.rt.nextHid := by
    intro e he
    rw [hnext]
    exact (hmem e he).elim (h.tokens e) (hp.below e.2)
  have hnodup : ((registerTokens tokens s.world).2.rt.tokenToHid.map Prod.snd).Nodup := by
    rw [hdone, map_append, nodup_append]
    refine ⟨h.hidsNodup, htokens.nodup.sublist (hpre.sublist.map _), fun a ha b hb heq => ?_⟩
    obtain ⟨e, he, rfl⟩ := mem_map.1 ha
    obtain ⟨e', he', rfl⟩ := mem_map.1 hb
    exact (hp.fresh e'.2 (htokens.mem e' (hpre.subset he'))).2 e he heq
  have hlive : ∀ e ∈ s.live, e ∈ (registerTokens tokens s.world).2.rt.tokenToHid := by
    intro e he
    rw [hdone]
    exact mem_append_left _ (h.live e he)
  have hsub := hreg.handlers
  unfold Session.bound
  split
  next w hr =>
    have hall := hreg.all (by rw [hr])
    rw [hr] at hhooks hbelow hnodup hlive hsub hall hnext
    have hkeys := hreg.nodup h.tokensNodup
    have hkill := hreg.killed
    rw [hr] at hkeys hkill
    refine ⟨?_, ?_, h.nodup.sublist (hsub.map _), hhooks, hbelow, hkeys, hnodup, ?_, by simp⟩
    · intro hk e he
      rcases h.bound (alive_before hkill hk) e (hsub.subset he) with hb | ⟨c', hc', hb⟩ | ⟨token, hb⟩
      · exact .inl hb
      · rw [hc] at hc'
        obtain rfl := Option.some.inj hc'
        obtain ⟨token, ht⟩ := htokens.all e.1 hb
        exact .inr (.inr ⟨token, mem_append_right _ ht⟩)
      · exact .inr (.inr ⟨token, mem_append_left _ hb⟩)
    · exact fun e he => hnext ▸ h.below e (hsub.subset he)
    · intro e he
      rcases mem_append.1 he with he | he
      · exact hlive e he
      · rw [hall]
        exact mem_append_right _ he
  next w hr =>
    have hdead := hreg.taken (by rw [hr])
    have hkeys := hreg.nodup h.tokensNodup
    rw [hr] at hhooks hbelow hnodup hlive hsub hdead hnext hkeys
    refine ⟨fun hk => ?_, ?_, h.nodup.sublist (hsub.map _), hhooks, hbelow, hkeys, hnodup, hlive,
      by simp⟩
    · nomatch hdead.symm.trans hk
    · exact fun e he => hnext ▸ h.below e (hsub.subset he)

/-- The command returns. -/
theorem Ledger.returned (py : Wire.Python) (h : Ledger s)
    (hc : s.inFlight = some c) (v : Option (Wire.Field py.Date)) :
    Ledger (s.returned py c.2 v) := by
  have hp := h.pending c hc
  simp only [Session.returned]
  cases hcmd : c.2 with
  | bindFunction hid =>
    simp only
    split
    · rw [← hcmd]
      exact (h.failed hc).kill
    · refine h.registered hc ?_
      rw [hcmd]
      exact registers_single _ _
  | bindObject hids =>
    simp only
    split
    · rw [← hcmd]
      exact (h.failed hc).kill
    next tokens htokens =>
      refine h.registered hc ?_
      rw [hcmd]
      have hnodup := hp.nodup
      rw [hcmd] at hnodup
      exact objectTokens_registers (hp.names hids hcmd) hnodup htokens
  | setHook hid =>
    have hmem : hid ∈ c.2.hids := by simp [hcmd, Command.hids]
    refine ⟨?_, h.below, h.nodup, ?_, h.tokens, h.tokensNodup, h.hidsNodup, h.live, by simp⟩
    · intro hk e he
      rcases h.bound hk e he with hb | ⟨c', hc', hb⟩ | hb
      · exact .inl (mem_append_left _ hb)
      · rw [hc] at hc'
        obtain rfl := Option.some.inj hc'
        rw [hcmd] at hb
        exact .inl (mem_append_right _ hb)
      · exact .inr (.inr hb)
    · intro k hk
      rcases mem_append.1 hk with hk | hk
      · exact h.hooks k hk
      · obtain rfl := mem_singleton.1 hk
        exact ⟨hp.below k hmem, (hp.fresh k hmem).2⟩
  | command =>
    refine ⟨?_, h.below, h.nodup, h.hooks, h.tokens, h.tokensNodup, h.hidsNodup, h.live, by simp⟩
    intro hk e he
    rcases h.bound hk e he with hb | ⟨c', hc', hb⟩ | hb
    · exact .inl hb
    · rw [hc] at hc'
      obtain rfl := Option.some.inj hc'
      rw [hcmd] at hb
      cases hb
    · exact .inr (.inr hb)

/-! ## Revocation -/

/-- A live token is found in the table, under its own id. -/
theorem Ledger.find (h : Ledger s) {token : ℤ} {hid : ℕ} (hlive : (token, hid) ∈ s.live) :
    s.world.rt.tokenToHid.find? (fun e => e.1 = token) = some (token, hid) := by
  have hmem := h.live _ hlive
  cases hf : s.world.rt.tokenToHid.find? (fun e => e.1 = token) with
  | none => exact absurd (List.find?_eq_none.1 hf _ hmem) (by simp)
  | some e =>
    have hkey : e.1 = token := by simpa using List.find?_some hf
    exact congrArg some (inj_on_of_nodup_map h.tokensNodup (mem_of_find?_eq_some hf) hmem hkey)

/-- **Revoking a live token** drops its handler and no other. -/
theorem Ledger.revoke_handlers (h : Ledger s) {token : ℤ} {hid : ℕ} (hlive : (token, hid) ∈ s.live) :
    (s.world.rt.revoke token).handlers = s.world.rt.handlers.filter fun e => e.1 ≠ hid := by
  unfold Runtime.revoke
  rw [h.find hlive]
  simp [Runtime.popAll]

/-- What a revocation leaves of the tables. -/
theorem revoke_sub (rt : Runtime) (token : ℤ) : (rt.revoke token).handlers.Sublist rt.handlers ∧
      (rt.revoke token).tokenToHid = rt.tokenToHid.filter (fun e => e.1 ≠ token) ∧
      (rt.revoke token).nextHid = rt.nextHid ∧ (rt.revoke token).hostCalls = rt.hostCalls ∧
      (rt.revoke token).asyncInflight = rt.asyncInflight ∧ (rt.revoke token).accepted = rt.accepted ∧
      (rt.revoke token).killed = rt.killed := by
  unfold Runtime.revoke
  split
  next hnone =>
    refine ⟨List.Sublist.refl _, ?_, rfl, rfl, rfl, rfl, rfl⟩
    rw [eq_comm, filter_eq_self]
    intro e he
    simpa using List.find?_eq_none.1 hnone e he
  · exact ⟨filter_sublist, rfl, rfl, rfl, rfl, rfl, rfl⟩

theorem Ledger.revoke (h : Ledger s) (token : ℤ) : Ledger (s.revoke token) := by
  obtain ⟨hsub, htok, hnext, -, -, -, hkilled⟩ := revoke_sub s.world.rt token
  have hold : ∀ e ∈ (s.world.rt.revoke token).tokenToHid, e ∈ s.world.rt.tokenToHid := by
    intro e he
    rw [htok] at he
    exact (mem_filter.1 he).1
  have htoksub : ((s.world.rt.revoke token).tokenToHid).Sublist s.world.rt.tokenToHid := by
    rw [htok]
    exact filter_sublist
  refine ⟨?_, ?_, h.nodup.sublist (hsub.map _), ?_, ?_, h.tokensNodup.sublist (htoksub.map _),
    h.hidsNodup.sublist (htoksub.map _), ?_, ?_⟩
  · intro hk e he
    have hb := h.bound (hkilled ▸ hk) e (hsub.subset he)
    -- what is still in the table is not the handler of the revoked token
    rcases hb with hb | hb | ⟨t, hb⟩
    · exact .inl hb
    · exact .inr (.inl hb)
    · refine .inr (.inr ⟨t, mem_filter.2 ⟨hb, ?_⟩⟩)
      simp only [ne_eq, decide_eq_true_eq]
      rintro rfl
      have hin : e ∈ (s.world.rt.revoke t).handlers := he
      rw [h.revoke_handlers hb] at hin
      simp at hin
  · exact fun e he => hnext ▸ h.below e (hsub.subset he)
  · exact fun k hk => ⟨hnext ▸ (h.hooks k hk).1, fun e he => (h.hooks k hk).2 e (hold e he)⟩
  · exact fun e he => hnext ▸ h.tokens e (hold e he)
  · intro e he
    obtain ⟨he, hne⟩ := mem_filter.1 he
    show e ∈ (s.world.rt.revoke token).tokenToHid
    rw [htok]
    exact mem_filter.2 ⟨h.live e he, hne⟩
  · intro c hc
    have hp := h.pending c hc
    exact ⟨fun k hk => hnext ▸ hp.below k hk, hp.nodup,
      fun k hk => ⟨(hp.fresh k hk).1, fun e he => (hp.fresh k hk).2 e (hold e he)⟩, hp.names⟩

/-! ## The books -/

/-- A step that runs nothing keeps the books; what it adds to the table is
fresh. -/
theorem Books.of_same {s' : Session} (h : Books o s)
    (hhandlers : ∀ e ∈ s'.world.rt.handlers, e ∈ s.world.rt.handlers ∨ s.world.rt.nextHid ≤ e.1)
    (hran : s'.world.rt.accepted = s.world.rt.accepted := by rfl)
    (hcalls : s'.world.rt.hostCalls = s.world.rt.hostCalls := by rfl)
    (hasync : s'.world.rt.asyncInflight = s.world.rt.asyncInflight := by rfl)
    (hnext : s.world.rt.nextHid ≤ s'.world.rt.nextHid := by exact le_rfl)
    (hruns : s'.runs = s.runs := by rfl) (hwaiting : s'.waiting = s.waiting := by rfl)
    (hrunning : s'.running = s.running := by rfl) :
    Books o s' where
  console := fun c hc => by
    obtain ⟨hlt, hsync⟩ := h.console c hc
    refine ⟨lt_of_lt_of_le hlt hnext, fun handler hmem => ?_⟩
    rcases hhandlers _ hmem with hold | hnew
    · exact hsync handler hold
    · exact absurd hlt (not_lt.2 hnew)
  runs := by rw [hran, hcalls]; exact h.runs
  budget := by rw [hran]; exact h.budget
  running := by rw [hasync, hwaiting, hrunning]; exact h.running
  cap := by rw [hasync]; exact h.cap
  answers := by rw [hran, hruns, hwaiting]; exact h.answers

theorem Books.begin (h : Books o s) (hl : Ledger s) (op : Op) (loop : Bool) (pump : Pump) :
    Books o (s.begin op loop pump) := by
  have hop := register_opened op s.world.rt
  obtain ⟨-, hcalls, hasync, hran, -⟩ := hop.same
  simp only [Session.begin]
  split
  · refine h.of_same (fun e he => .inl ?_) hran hcalls hasync hop.nextHid
    exact hop.popAll hl.below ▸ he
  · refine h.of_same (fun e he => ?_) hran hcalls hasync hop.nextHid
    obtain ⟨new, hnew, hids⟩ := hop.handlers
    simp only [hnew] at he
    refine (mem_append.1 he).imp_right fun he => (hop.fresh e.1 ?_).1
    exact hids ▸ mem_map.2 ⟨e, he, rfl⟩

theorem Books.failed (h : Books o s) (cmd : Command) : Books o (s.failed cmd) :=
  h.of_same fun _ he => .inl (mem_filter.1 he).1

theorem Books.bound (h : Books o s) (tokens : List (ℤ × ℕ)) : Books o (s.bound tokens) := by
  have hreg := registerTokens_registered tokens s.world
  obtain ⟨hnext, hcalls, hasync, hran⟩ := hreg.same
  have hsub := hreg.handlers
  unfold Session.bound
  split
  next w hr =>
    rw [hr] at hnext hcalls hasync hran hsub
    exact h.of_same (fun e he => .inl (hsub.subset he)) hran hcalls hasync hnext.ge
  next w hr =>
    rw [hr] at hnext hcalls hasync hran hsub
    exact h.of_same (fun e he => .inl (hsub.subset he)) hran hcalls hasync hnext.ge

theorem Books.returned (py : Wire.Python) (h : Books o s) (cmd : Command)
    (v : Option (Wire.Field py.Date)) : Books o (s.returned py cmd v) := by
  have hdead : Books o (s.malformed cmd) :=
    (h.failed cmd).of_same fun _ => .inl
  have hsame : ∀ hooks, Books o { s with inFlight := none, hooks := hooks } :=
    fun hooks => h.of_same fun _ => .inl
  simp only [Session.returned]
  cases cmd with
  | bindFunction hid | bindObject hids =>
    simp only
    split
    · exact hdead
    · exact h.bound _
  | setHook hid | command => exact hsame _

/-- Under distinct ids, an entry of the table is found by its id. -/
theorem any_async {handlers : List (ℕ × Handler)} (hnodup : (handlers.map Prod.fst).Nodup) {h : ℕ}
    {handler : Handler} (hmem : (h, handler) ∈ handlers) :
    handlers.any (fun e => decide (e.1 = h) && e.2.isAsync) = handler.isAsync := by
  rw [Bool.eq_iff_iff, any_eq_true]
  constructor
  · rintro ⟨e, he, hand⟩
    simp only [Bool.and_eq_true, decide_eq_true_eq] at hand
    rw [inj_on_of_nodup_map hnodup he hmem hand.1] at hand
    exact hand.2
  · exact fun ha => ⟨_, hmem, by simp [ha]⟩

/-- A turn that calls nothing leaves what was run and what waits. -/
theorem after_of_quiet {w : World} (h : w.rt.accepted = s.world.rt.accepted) :
    (s.after w).runs = s.runs ∧ (s.after w).waiting = s.waiting := by
  simp [Session.after, h]

section

variable {w : World} {k : ℕ} {handler : Handler} {hid : Obj}

/-- One that calls a handler runs it, or queues it on the loop. -/
theorem after_of_booked (hl : Ledger s) (hb : Booked o s.loop hid s.world.rt w.rt k handler) :
    (s.after w).runs = s.runs ++ (if s.loop && handler.isAsync then [] else [k]) ∧
      (s.after w).waiting = s.waiting ++ (if s.loop && handler.isAsync then [k] else []) := by
  have honLoop : s.onLoop k = (s.loop && handler.isAsync) := by
    rw [Session.onLoop, any_async hl.nodup hb.mem]
  simp only [Session.after, hb.accepted, drop_left, filter_cons, filter_nil, honLoop]
  cases s.loop && handler.isAsync <;> simp

theorem Books.answers_of_booked (h : Books o s) (hl : Ledger s)
    (hb : Booked o s.loop hid s.world.rt w.rt k handler) (p : ℕ → Bool) :
    (s.after w).runs.countP p + (s.after w).waiting.countP p ≤ w.rt.accepted.countP p := by
  obtain ⟨hruns, hwaiting⟩ := after_of_booked hl hb
  have := h.answers p
  rw [hruns, hwaiting, hb.accepted]
  simp only [countP_append]
  cases s.loop && handler.isAsync <;>
    simp only [if_true, if_false, Bool.false_eq_true, countP_nil] <;> omega

theorem Booked.countP_accepted (hb : Booked o s.loop hid s.world.rt w.rt k handler) :
    w.rt.accepted.countP (fun h => o.consoleHid ≠ some h) =
      s.world.rt.accepted.countP (fun h => o.consoleHid ≠ some h)
        + if o.consoleHid ≠ some k then 1 else 0 := by
  rw [hb.accepted, countP_append, countP_singleton]
  simp

/-- A tool that is queued on the loop is one more in flight, within the cap. -/
theorem Books.inFlight_of_booked (h : Books o s) (hl : Ledger s)
    (hb : Booked o s.loop hid s.world.rt w.rt k handler) (hc : o.consoleHid ≠ some k) :
    w.rt.asyncInflight = (s.after w).waiting.length + s.running.length ∧
      ∀ most : ℕ, o.maxInflight = some most → w.rt.asyncInflight ≤ most := by
  have hrunning := h.running
  rw [(after_of_booked hl hb).2]
  cases ha : s.loop && handler.isAsync with
  | false =>
    have hsame := hb.onThread hc ha
    rw [if_neg (by simp), append_nil]
    exact ⟨hsame.trans hrunning, fun most hm => hsame.trans_le (h.cap most hm)⟩
  | true =>
    obtain ⟨hplus, hcap⟩ := hb.onLoop hc ha
    refine ⟨hplus.trans ?_, fun most hm => hplus.trans_le (hcap most hm)⟩
    simp only [if_true, length_append, length_singleton]
    omega

/-- The console counts for nothing. -/
theorem Books.console_booked (h : Books o s) (hl : Ledger s)
    (hb : Booked o s.loop hid s.world.rt w.rt k handler) (hc : o.consoleHid = some k)
    (hconsole : ∀ c, o.consoleHid = some c → c < w.rt.nextHid ∧
      ∀ handler, (c, handler) ∈ w.rt.handlers → handler.isAsync = false) : Books o (s.after w) := by
  obtain ⟨hcalls, hasync⟩ := hb.console hc
  have hsync := (h.console k hc).2 handler hb.mem
  have hwaiting := (after_of_booked hl hb).2
  rw [hsync, Bool.and_false, if_neg (by simp), append_nil] at hwaiting
  have hcount := hb.countP_accepted
  rw [if_neg (not_not.2 hc), add_zero] at hcount
  refine ⟨hconsole, ?_, fun most hm => hcount.trans_le (h.budget most hm), ?_,
    fun most hm => hasync.trans_le (h.cap most hm), h.answers_of_booked hl hb⟩
  · exact hcount.trans_le (h.runs.trans_eq hcalls.symm)
  · rw [hwaiting]
    exact hasync.trans h.running

/-- A tool counts for the budget, and where it is queued for the cap. -/
theorem Books.tool_booked (h : Books o s) (hl : Ledger s)
    (hb : Booked o s.loop hid s.world.rt w.rt k handler) (hc : o.consoleHid ≠ some k)
    (hconsole : ∀ c, o.consoleHid = some c → c < w.rt.nextHid ∧
      ∀ handler, (c, handler) ∈ w.rt.handlers → handler.isAsync = false) : Books o (s.after w) := by
  obtain ⟨hcalls, hmost⟩ := hb.tool hc
  obtain ⟨hrunning, hcap⟩ := h.inFlight_of_booked hl hb hc
  have hruns : w.rt.accepted.countP (fun h => o.consoleHid ≠ some h) ≤ w.rt.hostCalls := by
    rw [hb.countP_accepted, if_pos hc, hcalls]
    exact Nat.succ_le_succ h.runs
  exact ⟨hconsole, hruns, fun most hm => le_trans hruns (hmost most hm), hrunning, hcap,
    h.answers_of_booked hl hb⟩

/-- **A turn keeps the books.** -/
theorem Books.turned (h : Books o s) (hl : Ledger s)
    (ht : Turned o s.loop hid s.world.rt w.rt) : Books o (s.after w) := by
  have hconsole : ∀ c, o.consoleHid = some c → c < w.rt.nextHid ∧
      ∀ handler, (c, handler) ∈ w.rt.handlers → handler.isAsync = false := by
    rw [ht.nextHid, ht.handlers]
    exact h.console
  rcases ht.books with ⟨hran, hasync, hcalls⟩ | ⟨k, handler, hb⟩
  · obtain ⟨hruns, hwaiting⟩ := after_of_quiet hran
    refine ⟨hconsole, ?_, ?_, ?_, ?_, ?_⟩
    · exact (congrArg (countP _) hran).trans_le (le_trans h.runs hcalls)
    · exact fun most hm => (congrArg (countP _) hran).trans_le (h.budget most hm)
    · rw [hwaiting]
      exact hasync.trans h.running
    · exact fun most hm => hasync.trans_le (h.cap most hm)
    · rw [hruns, hwaiting]
      exact fun p => (h.answers p).trans_eq (congrArg (countP p) hran).symm
  · by_cases hc : o.consoleHid = some k
    · exact h.console_booked hl hb hc hconsole
    · exact h.tool_booked hl hb hc hconsole

end

/-! ## One event -/

section

variable (py : Wire.Python) (repr : List ℕ → String) (unsafeText : ℕ → Bool)

variable {o : Options} {s : Session}

/-- **What a turn comes to**: the pump goes on, or the command returns or
fails. -/
theorem turn_cases (s : Session) (id : ℕ) (cmd : Command) (t : Turn)
    (halive : s.world.rt.killed = false) :
    ∃ w : World, (Quiet s.world.rt w.rt ∨ ∃ hid, t.Calls py hid ∧ Turned o s.loop hid s.world.rt w.rt) ∧
      (s.turn py repr unsafeText o id cmd t = s.after w ∨
        (∃ v, s.turn py repr unsafeText o id cmd t = (s.after w).returned py cmd v) ∨
        ∃ w', Quiet w.rt w'.rt ∧
          s.turn py repr unsafeText o id cmd t = { s.after w with world := w' }.failed cmd) := by
  refine ⟨(pumpBody py repr unsafeText o s.loop id t s.world).2,
    pumpBody_turned py repr unsafeText s.loop id t s.world, ?_⟩
  simp only [Session.turn, halive, Bool.false_eq_true, if_false]
  cases (pumpBody py repr unsafeText o s.loop id t s.world).1 with
  | error e => exact .inr (.inr ⟨_, quiet_pumpExcept unsafeText e _, rfl⟩)
  | ok a =>
    cases a with
    | goOn => exact .inl rfl
    | value v => exact .inr (.inl ⟨v, rfl⟩)
    | remote r => exact .inr (.inr ⟨_, .refl _, rfl⟩)

/-- What holds of a session after every run. -/
structure Kempt (o : Options) (s : Session) : Prop extends Ledger s, Books o s

theorem Kempt.after {hid : Obj} {w : World} (h : Kempt o s)
    (ht : Turned o s.loop hid s.world.rt w.rt) : Kempt o (s.after w) :=
  have hl : Ledger (s.after w) :=
    h.toLedger.of_tables ht.handlers ht.tokenToHid ht.nextHid ht.killed rfl rfl rfl
  { hl, h.toBooks.turned h.toLedger ht with }

/-- The worker's reply ends the command, or the pump goes on. -/
theorem Kempt.turn {id : ℕ} {cmd : Command} (h : Kempt o s)
    (hc : s.inFlight = some (id, cmd)) (t : Turn) :
    Kempt o (s.turn py repr unsafeText o id cmd t) := by
  cases hk : s.world.rt.killed with
  | true =>
    simp only [Session.turn, hk, if_true]
    exact { h.toLedger.failed hc, h.toBooks.failed cmd with }
  | false =>
    obtain ⟨w, hturned, hend⟩ := turn_cases py repr unsafeText (o := o) s id cmd t hk
    obtain ⟨hid, ht⟩ : ∃ hid, Turned o s.loop hid s.world.rt w.rt := by
      rcases hturned with hq | ⟨hid, -, ht⟩
      · exact ⟨.null, hq.turned⟩
      · exact ⟨hid, ht⟩
    have ha := h.after ht
    have hflight : (s.after w).inFlight = some (id, cmd) := hc
    rcases hend with hs | ⟨v, hs⟩ | ⟨w', hq, hs⟩
    · rw [hs]
      exact ha
    · rw [hs]
      exact { ha.toLedger.returned py hflight v, ha.toBooks.returned py cmd v with }
    · rw [hs]
      have hl : Ledger { s.after w with world := w' } :=
        ha.toLedger.of_tables hq.handlers hq.tokenToHid hq.nextHid hq.killed rfl rfl rfl
      have hb : Books o { s.after w with world := w' } :=
        ha.toBooks.of_same (fun e he => .inl (hq.handlers ▸ he)) hq.accepted hq.hostCalls
          hq.asyncInflight hq.nextHid.ge
      exact { hl.failed hflight, hb.failed cmd with }

/-- An asynchronous handler ends. -/
theorem quiet_finishAsyncCall (cid : ℤ) (b : Behaviour) (env : CallEnv) (w : World) :
    Quiet { w.rt with asyncInflight := w.rt.asyncInflight - 1 }
      (finishAsyncCall o cid b env w).2.rt := by
  simp only [finishAsyncCall]
  split
  · exact quiet_sendReply _ _ { w with rt := { w.rt with asyncInflight := w.rt.asyncInflight - 1 } }
  · exact quiet_replyError _ _ _ { w with rt := { w.rt with asyncInflight := w.rt.asyncInflight - 1 } }

/-- What is taken from a list is counted no more. -/
theorem countP_eraseIdx {l : List ℕ} {i h : ℕ} (hi : l[i]? = some h) (p : ℕ → Bool) :
    (l.eraseIdx i).countP p + [h].countP p = l.countP p := by
  obtain ⟨hlt, rfl⟩ := List.getElem?_eq_some_iff.1 hi
  rw [add_comm, ← countP_append, singleton_append]
  exact (getElem_cons_eraseIdx_perm hlt).countP_eq p

theorem Kempt.asyncStarts (h : Kempt o s) (i : ℕ) : Kempt o (s.asyncStarts i) := by
  unfold Session.asyncStarts
  split
  next k hk =>
    have hi := (List.getElem?_eq_some_iff.1 hk).1
    have hrunning := h.running
    have hlen := length_eraseIdx_of_lt hi
    have hl : Ledger { s with
        runs := s.runs ++ [k], waiting := s.waiting.eraseIdx i, running := s.running ++ [k] } :=
      h.toLedger.of_tables rfl rfl rfl id rfl rfl rfl
    refine { hl, h.toBooks with running := ?_, answers := fun p => ?_ }
    · simp only [length_append, length_singleton, hlen]
      omega
    · have := h.answers p
      have := countP_eraseIdx hk p
      simp only [countP_append]
      omega
  · exact h

theorem Kempt.asyncEnds (h : Kempt o s) {queued : Bool} {i : ℕ}
    (hi : i < (if queued then s.waiting else s.running).length)
    (cid : ℤ) (b : Behaviour) (env : CallEnv) (current : Bool) :
    Kempt o (s.asyncEnds o queued i cid b env current) := by
  have hq : Quiet { s.world.rt with asyncInflight := s.world.rt.asyncInflight - 1 }
      (finishAsyncCall o cid b env s.world).2.rt := quiet_finishAsyncCall cid b env s.world
  have hasync : (s.asyncEnds o queued i cid b env current).world.rt.asyncInflight =
      s.world.rt.asyncInflight - 1 := hq.asyncInflight
  have hl : Ledger (s.asyncEnds o queued i cid b env current) :=
    h.toLedger.of_tables hq.handlers hq.tokenToHid hq.nextHid hq.killed rfl rfl rfl
  have hrunning := h.running
  have hb : Books o (s.asyncEnds o queued i cid b env current) := by
    refine ⟨?_, ?_, ?_, ?_, ?_, ?_⟩
    · simp only [Session.asyncEnds, hq.nextHid, hq.handlers]
      exact h.console
    · simp only [Session.asyncEnds, hq.accepted, hq.hostCalls]
      exact h.runs
    · simp only [Session.asyncEnds, hq.accepted]
      exact h.budget
    · rw [hasync]
      cases queued with
      | false | true =>
        simp only [Bool.false_eq_true, if_true, if_false] at hi
        simp only [Session.asyncEnds, Bool.false_eq_true, if_true, if_false, length_eraseIdx_of_lt hi]
        omega
    · intro most hm
      have hcap := h.cap most hm
      omega
    · intro p
      have hsub : (s.asyncEnds o queued i cid b env current).waiting.countP p ≤ s.waiting.countP p := by
        cases queued with
        | false => exact le_rfl
        | true => exact (eraseIdx_sublist s.waiting i).countP_le
      refine (Nat.add_le_add_left hsub _).trans ?_
      simp only [Session.asyncEnds, hq.accepted]
      exact h.answers p
  exact { hl, hb with }

/-- **Every event keeps the tables and the books.** -/
theorem Kempt.step (h : Kempt o s) (e : Event) : Kempt o (s.step py repr unsafeText o e) := by
  unfold Session.step
  split
  next op loop pump hidle =>
    exact { h.toLedger.begin hidle op loop pump, h.toBooks.begin h.toLedger op loop pump with }
  next t id cmd hc =>
    exact h.turn py repr unsafeText hc t
  next id cmd hc =>
    exact { h.toLedger.failed hc, h.toBooks.failed cmd with }
  next token =>
    obtain ⟨hsub, -, hnext, hcalls, hasync, hran, -⟩ := revoke_sub s.world.rt token
    have hb : Books o (s.revoke token) :=
      h.toBooks.of_same (fun e he => .inl (hsub.subset he)) hran hcalls hasync hnext.ge
    exact { h.toLedger.revoke token, hb with }
  next i => exact h.asyncStarts i
  next queued i cid b env current =>
    by_cases hi : i < (if queued then s.waiting else s.running).length
    · rw [if_pos hi]
      exact h.asyncEnds hi cid b env current
    · rw [if_neg hi]
      exact h
  · have hb : Books o { s with world := s.world.kill } :=
      h.toBooks.of_same fun _ => .inl
    exact { h.toLedger.kill, hb with }
  · exact h

end

end Pydeno.Isolated
