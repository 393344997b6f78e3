import Pydeno.Workers.Model.AsyncPool
/-!
# The async pool hands a runtime out once, and closes the rest

Every runtime is in one place: in the deque, with one task, or gone, to a
caller, to its `close()`, dropped because its start failed, or lost with a
cancelled task (`runtime_conserved`). So no two checkouts get the same one
(`SingleUse`), in any run.

That none is left over (`NoLeak`) and none is returned dead (`HandedAlive`) takes
care. `start()` puts its runtime into the deque without looking whether the pool
was closed meanwhile (`no_leak_fails`), a checkout that is cancelled while it
closes dead runtimes drops the live one it has chosen, and a cancelled `close()`
drops what it has taken. And a checkout does not look at the runtime it has
chosen again when the dead ones are closed. In the runs without these, every
runtime is handed out alive or closed.
-/

namespace Pydeno.Workers

open List Interleaving

/-! ## The properties -/

/-- No runtime is handed out twice. -/
def SingleUse (P : AsyncPool) : Prop := (P.handed.map Handout.runtime).Nodup

/-- None was dead as it was handed out. -/
def HandedAlive (P : AsyncPool) : Prop := ∀ x ∈ P.handed, x.dead = false

/-- Once `close()` was called and every task has ended, each runtime that was
started was handed out or closed. -/
def NoLeak (sys : Sys AsyncPool Task) : Prop :=
  0 < sys.shared.closesBegun → (∀ c ∈ sys.parts, c = .ended) →
    ∀ r, (r, .ok) ∈ sys.shared.outcomes →
      r ∈ sys.shared.handed.map Handout.runtime ∨ r ∈ sys.shared.closedRuntimes

/-! ## Where the runtimes are -/

/-- How often a runtime has been created. -/
def AsyncPool.created (P : AsyncPool) (r : ℕ) : ℕ := if r < P.nextRuntime then 1 else 0

theorem AsyncPool.created_create (P : AsyncPool) (r : ℕ) :
    P.create.created r = P.created r + [P.nextRuntime].count r := by
  unfold created create
  simp only [count_singleton, beq_iff_eq]
  split_ifs <;> omega

/-- The deque is what a checkout finds in it. -/
theorem AsyncPool.ready_of_look {P : AsyncPool} {dead rest : List ℕ} {chosen : Option ℕ}
    (h : P.look = (dead, chosen, rest)) : P.ready = dead ++ chosen.toList ++ rest := by
  have hsplit := takeWhile_append_dropWhile (p := fun r => decide (r ∈ P.dead))
    (l := P.ready)
  simp only [look] at h
  split at h
  next hdrop =>
    obtain ⟨rfl, rfl, rfl⟩ : _ ∧ _ ∧ _ := by simpa using h
    rw [hdrop] at hsplit
    simpa using hsplit.symm
  next r rest' hdrop =>
    obtain ⟨rfl, rfl, rfl⟩ : _ ∧ _ ∧ _ := by simpa using h
    rw [hdrop] at hsplit
    simpa using hsplit.symm

/-- A checkout does not choose a dead runtime. -/
theorem AsyncPool.alive_of_look {P : AsyncPool} {dead rest : List ℕ} {r : ℕ}
    (h : P.look = (dead, some r, rest)) : r ∉ P.dead := by
  simp only [look] at h
  split at h
  · simp at h
  next r' rest' hdrop =>
    have hhead := List.head?_dropWhile_not (fun r => decide (r ∈ P.dead)) P.ready
    rw [hdrop] at hhead
    obtain ⟨-, rfl, -⟩ : _ ∧ r' = r ∧ _ := by simpa using h
    simpa using hhead

/-! ## What the pieces of a step leave alone -/

/-- The places a task goes to when it has nothing left to remember. -/
def Task.Plain (c : Task) : Prop := c = .ended ∨ c = .fills ∨ c = .asks .checkout

theorem AsyncPool.afterFailure_plain (role : Role) : (afterFailure role).Plain := by
  cases role <;> simp [afterFailure, Task.Plain]

theorem AsyncPool.receive_plain (P : AsyncPool) (r : ℕ) (role : Role) :
    (P.receive r role).2.Plain := by
  cases role with
  | filler =>
    simp only [receive]
    split <;> simp [Task.Plain]
  | _ => simp [receive, Task.Plain]

theorem AsyncPool.choose_plain (P : AsyncPool) (chosen : Option ℕ) :
    (P.choose chosen).2.Plain := by
  cases chosen <;> simp [choose, Task.Plain]

/-- Two pools with the same books: how starts ended, what failed or was lost,
and the `close()` calls. -/
structure SameBooks (P P' : AsyncPool) : Prop where
  started : P'.started = P.started
  nextRuntime : P'.nextRuntime = P.nextRuntime
  outcomes : P'.outcomes = P.outcomes
  dropped : P'.dropped = P.dropped
  lost : P'.lost = P.lost
  closesBegun : P'.closesBegun = P.closesBegun
  drains : P'.drains = P.drains
  closesCancelled : P'.closesCancelled = P.closesCancelled

theorem AsyncPool.failure_same (P : AsyncPool) (role : Role) : SameBooks P (P.failure role) := by
  cases role <;> constructor <;> rfl

theorem AsyncPool.receive_same (P : AsyncPool) (r : ℕ) (role : Role) :
    SameBooks P (P.receive r role).1 := by
  cases role with
  | filler =>
    simp only [receive]
    split <;> constructor <;> rfl
  | _ => constructor <;> rfl

theorem AsyncPool.choose_same (P : AsyncPool) (chosen : Option ℕ) :
    SameBooks P (P.choose chosen).1 := by
  cases chosen <;> constructor <;> rfl

/-! ## Conservation -/

section

variable {careful : Bool} {P P' : AsyncPool} {c c' : Task}

@[simp] theorem AsyncPool.placed_failure (P : AsyncPool) (role : Role) :
    (P.failure role).placed = P.placed := by
  cases role <;> rfl

@[simp] theorem AsyncPool.created_failure (P : AsyncPool) (role : Role) (r : ℕ) :
    (P.failure role).created r = P.created r := by
  cases role <;> rfl

@[simp] theorem AsyncPool.created_close (P : AsyncPool) (r q : ℕ) :
    (P.close r).created q = P.created q := rfl

theorem SameBooks.created (h : SameBooks P P') (q : ℕ) : P'.created q = P.created q := by
  rw [AsyncPool.created, AsyncPool.created, h.nextRuntime]

@[simp] theorem Task.owned_awaits (role : Role) (r : ℕ) : (awaits role r).owned = [r] := rfl

@[simp] theorem Task.owned_afterFailure (role : Role) : (AsyncPool.afterFailure role).owned = [] := by
  cases role <;> rfl

theorem AsyncPool.count_placed_close (P : AsyncPool) (r q : ℕ) :
    (P.close r).placed.count q = P.placed.count q + [r].count q := by
  simp only [placed, close, count_append]
  omega

theorem AsyncPool.count_placed_hand (P : AsyncPool) (r q : ℕ) :
    (P.hand r).placed.count q = P.placed.count q + [r].count q := by
  simp only [placed, hand, count_append, map_append, map_cons, map_nil]
  omega

/-- A runtime that a role receives is placed. -/
theorem AsyncPool.count_placed_receive (P : AsyncPool) (r q : ℕ) (role : Role) :
    (P.receive r role).1.placed.count q + (P.receive r role).2.owned.count q
      = P.placed.count q + [r].count q := by
  cases role with
  | starter =>
    simp only [receive, placed, Task.owned, count_append, count_nil]
    omega
  | filler =>
    simp only [receive]
    split
    · simp only [count_placed_close, Task.owned, count_nil]
      omega
    · simp only [placed, Task.owned, count_append, count_nil]
      omega
  | checkout => simp only [receive, count_placed_hand, Task.owned, count_nil, add_zero]

/-- So is one that a checkout has chosen. -/
theorem AsyncPool.count_placed_choose (P : AsyncPool) (chosen : Option ℕ) (q : ℕ) :
    (P.choose chosen).1.placed.count q + (P.choose chosen).2.owned.count q
      = P.placed.count q + chosen.toList.count q := by
  cases chosen with
  | none => simp [choose, Task.owned]
  | some r => simp [choose, Task.owned, count_placed_hand]

/-- The deque may be exchanged. -/
theorem AsyncPool.count_placed_ready (P : AsyncPool) (l : List ℕ) (q : ℕ) :
    { P with ready := l }.placed.count q + P.ready.count q
      = P.placed.count q + l.count q := by
  simp only [placed, count_append]
  omega

/-- **A step moves runtimes**, and creates one at most. -/
theorem TaskStep.conserved (hs : TaskStep careful P c P' c') (q : ℕ) :
    P'.created q + (P.placed.count q + c.owned.count q)
      = P.created q + (P'.placed.count q + c'.owned.count q) := by
  cases hs with
  | startRefused | startBegins | checkoutRefused | fills | fillerEnds | closeBegins
  | gatherCancelled | closeEnds | dies => rfl
  | gives =>
    simp only [AsyncPool.placed_failure, AsyncPool.created_failure, Task.owned_afterFailure]
    rfl
  | reserves =>
    have hcreate := P.created_create q
    have hplaced : P.create.placed = P.placed := rfl
    simp only [Task.owned, count_nil, hplaced]
    omega
  | @takes r rest _ hready halive =>
    have hrest := P.count_placed_ready rest q
    have hcreated : ({ P with ready := rest }.hand r).created q = P.created q := rfl
    simp only [hcreated, AsyncPool.count_placed_hand, Task.owned, count_nil]
    simp only [hready, count_cons, count_nil] at hrest ⊢
    omega
  | @retires role r rest _ _ hready =>
    have hrest := P.count_placed_ready rest q
    have hcreated : { P with ready := rest }.created q = P.created q := rfl
    simp only [Task.owned, count_nil, AsyncPool.count_placed_close, AsyncPool.created_close, hcreated]
    simp only [hready, count_cons, count_nil] at hrest ⊢
    omega
  | @resumes role r _ =>
    have hplaced := P.count_placed_receive r q role
    simp only [(P.receive_same r role).created, Task.owned_awaits]
    omega
  | @startFails role r _ =>
    have hcreated : { P with dropped := P.dropped ++ [r] }.created q = P.created q := rfl
    simp only [AsyncPool.created_failure, AsyncPool.placed_failure, Task.owned_afterFailure,
      hcreated, Task.owned_awaits, count_nil]
    simp only [AsyncPool.placed, count_append]
    omega
  | cancelled =>
    simp only [AsyncPool.placed_failure, AsyncPool.created_failure]
    rfl
  | discardsNone | checkoutCancelled | closeCancelled =>
    simp only [AsyncPool.created, AsyncPool.placed, count_append, Task.owned, count_nil]
    omega
  | @finds chosen rest _ _ hlook =>
    have hready := AsyncPool.ready_of_look hlook
    have hrest := P.count_placed_ready rest q
    have hchoose := { P with ready := rest }.count_placed_choose chosen q
    have hcreated : ({ P with ready := rest }.choose chosen).1.created q = P.created q :=
      ({ P with ready := rest }.choose_same chosen).created q
    simp only [hready, count_append, count_nil] at hrest
    simp only [hcreated, Task.owned, count_nil] at hchoose ⊢
    omega
  | @findsDead r dead rest chosen _ _ hlook =>
    have hready := AsyncPool.ready_of_look hlook
    have hrest := P.count_placed_ready rest q
    have hcreated : ({ P with ready := rest }.close r).created q = P.created q := rfl
    simp only [hready, count_append, count_cons, cons_append] at hrest
    simp only [hcreated, AsyncPool.count_placed_close, Task.owned, count_append,
      count_cons, count_nil]
    omega
  | discards | closesNext | closesItem =>
    simp only [AsyncPool.created_close, AsyncPool.count_placed_close, Task.owned, count_append,
      count_cons, count_nil]
    omega
  | @closedAll chosen =>
    have hchoose := P.count_placed_choose chosen q
    simp only [(P.choose_same chosen).created, Task.owned, append_nil] at hchoose ⊢
    omega
  | drains =>
    have hempty := P.count_placed_ready [] q
    have hdrained : { P with ready := [], drains := P.drains + 1 }.placed
        = { P with ready := [] }.placed := rfl
    have hcreated : { P with ready := [], drains := P.drains + 1 }.created q
        = P.created q := rfl
    simp only [hdrained, hcreated, Task.owned, count_nil] at hempty ⊢
    omega

variable {sys : Sys AsyncPool Task}

/-- **Every runtime is in one place.** -/
theorem runtime_conserved (h : LoopReachable careful sys) (q : ℕ) : sys.shared.created q
      = sys.shared.placed.count q + (sys.parts.map fun c => c.owned.count q).sum := by
  refine reachable_balance (P := fun _ => True)
    (f := fun P : AsyncPool => P.created q) (g := fun P => P.placed.count q)
    ?_ ?_ ?_ ?_ ?_ h
  · rfl
  · exact fun _ _ => trivial
  · exact fun hs _ => hs.conserved q
  · intro P c hjoin
    cases hjoin <;> exact ⟨trivial, rfl⟩
  · intro P P' henv
    cases henv <;> exact ⟨rfl, rfl⟩

theorem AsyncPool.created_le_one (q : ℕ) : P.created q ≤ 1 := by
  unfold created
  split <;> omega

/-- So it is placed once at most. -/
theorem placed_nodup (h : LoopReachable careful sys) : sys.shared.placed.Nodup := by
  rw [nodup_iff_count_le_one]
  intro q
  have hq := runtime_conserved h q
  have := sys.shared.created_le_one q
  omega

/-- What a task or the pool has was created. -/
theorem made_of_pos {q : ℕ} (h : 0 < P.created q) : q < P.nextRuntime := by
  by_contra hq
  simp [AsyncPool.created, hq] at h

/-- What is placed is in no task's hands, -/
theorem owned_of_placed {q : ℕ} (h : LoopReachable careful sys) (hq : q ∈ sys.shared.placed) :
    q < sys.shared.nextRuntime ∧ ∀ d ∈ sys.parts, q ∉ d.owned := by
  have hcount := runtime_conserved h q
  have := sys.shared.created_le_one q
  have hpos := count_pos_iff.2 hq
  refine ⟨made_of_pos (by omega), fun d hd hqd => ?_⟩
  have hle := single_le_sum (by simp) _ (mem_map_of_mem (f := fun c : Task => c.owned.count q) hd)
  have hpos' := count_pos_iff.2 hqd
  omega

/-- and what one task has no other has. -/
theorem owned_apart {q : ℕ} {before after : List Task}
    (h : LoopReachable careful ⟨P, before ++ c :: after⟩) (hq : q ∈ c.owned) :
    q < P.nextRuntime ∧ ∀ d ∈ before ++ after, q ∉ d.owned := by
  have hcount := runtime_conserved h q
  have := P.created_le_one q
  have hpos := count_pos_iff.2 hq
  simp only [map_append, map_cons, sum_append, sum_cons] at hcount
  refine ⟨made_of_pos (by omega), fun d hd hqd => ?_⟩
  have hle := single_le_sum (by simp) _ (mem_map_of_mem (f := fun c : Task => c.owned.count q) hd)
  have hpos' := count_pos_iff.2 hqd
  simp only [map_append, sum_append] at hle
  omega

/-- Whether a task is a `close()` that has not yet taken the deque. -/
def Task.gathers (c : Task) : ℕ := if c = .gathering then 1 else 0

theorem Task.Plain.gathers (h : c.Plain) : c.gathers = 0 := by
  rcases h with rfl | rfl | rfl <;> rfl

theorem SameBooks.closes (h : SameBooks P P') (hc : c.gathers = 0) (hc' : c'.gathers = 0) :
    P'.closesBegun + (P.drains + P.closesCancelled + c.gathers)
      = P.closesBegun + (P'.drains + P'.closesCancelled + c'.gathers) := by
  rw [h.closesBegun, h.drains, h.closesCancelled, hc, hc']

/-- A step begins a `close()`, or ends its wait. -/
theorem TaskStep.closes (hs : TaskStep careful P c P' c') :
    P'.closesBegun + (P.drains + P.closesCancelled + c.gathers)
      = P.closesBegun + (P'.drains + P'.closesCancelled + c'.gathers) := by
  cases hs with
  | @gives role => exact (P.failure_same role).closes rfl (AsyncPool.afterFailure_plain role).gathers
  | @resumes role r _ => exact (P.receive_same r role).closes rfl (P.receive_plain r role).gathers
  | @startFails role r _ =>
    exact ({ P with dropped := P.dropped ++ [r] }.failure_same role).closes rfl
      (AsyncPool.afterFailure_plain role).gathers
  | @cancelled role r => exact (P.failure_same role).closes rfl rfl
  | @finds chosen rest _ _ _ =>
    exact ({ P with ready := rest }.choose_same chosen).closes rfl
      ({ P with ready := rest }.choose_plain chosen).gathers
  | @closedAll chosen => exact (P.choose_same chosen).closes rfl (P.choose_plain chosen).gathers
  | closeBegins | drains | gatherCancelled =>
    simp only [Task.gathers, reduceCtorEq, if_true, if_false]
    omega
  | _ => rfl

/-- **Every `close()` call that began** took the deque, was cancelled before
that, or is still waiting. -/
theorem closes_conserved (h : LoopReachable careful sys) :
    sys.shared.closesBegun = sys.shared.drains + sys.shared.closesCancelled
      + (sys.parts.map Task.gathers).sum := by
  refine reachable_balance (P := fun _ => True)
    (f := fun P : AsyncPool => P.closesBegun)
    (g := fun P => P.drains + P.closesCancelled) ?_ ?_ ?_ ?_ ?_ h
  · rfl
  · exact fun _ _ => trivial
  · exact fun hs _ => hs.closes
  · intro P c hjoin
    cases hjoin <;> exact ⟨trivial, rfl⟩
  · intro P P' henv
    cases henv <;> exact ⟨rfl, rfl⟩

end

/-! ## Flags -/

/-- `start()` is in `_new`. -/
def Task.inStart : Task → Bool
  | .asks .starter => true
  | .awaits .starter _ => true
  | _ => false

attribute [simp] Task.inStart

/-- What holds of the pool in a careful run. -/
structure Kept (P : AsyncPool) : Prop where
  lost : P.lost = []
  cancelled : P.closesCancelled = 0
  drained : 0 < P.drains → P.closed = true ∧ P.ready = []

/-- **The pool's invariant.** -/
structure PoolSound (careful : Bool) (P : AsyncPool) : Prop where
  failed : ∀ r ∈ P.dropped, (r, .failed) ∈ P.outcomes
  once : (P.outcomes.map Prod.fst).Nodup
  made : ∀ r ∈ P.outcomes.map Prod.fst, r < P.nextRuntime
  kept : careful = true → Kept P

/-- **A task's invariant.** -/
structure TaskSound (careful : Bool) (P : AsyncPool) (c : Task) : Prop where
  started : c.inStart = true → P.started = true
  starting : careful = true → c.inStart = true → P.starting = true ∧ P.closed = false
  gathering : c = .gathering → P.closed = true

/-- At most one task is in `start()`. -/
def StartApart (c d : Task) : Prop := ¬(c.inStart = true ∧ d.inStart = true)

/-! ## What a step does to the pool -/

/-- **The effect of a step**, as far as the invariants read it. A step that
says nothing of a field leaves it alone. -/
structure StepEffect (careful : Bool) (P : AsyncPool) (c : Task) (P' : AsyncPool) : Prop where
  outcomes : P'.outcomes = P.outcomes := by rfl
  nextRuntime : P.nextRuntime ≤ P'.nextRuntime := by exact le_rfl
  dropped : ∀ r ∈ P'.dropped, r ∈ P.dropped ∨ (r, .failed) ∈ P.outcomes := by
    exact fun _ h => .inl h
  started : P.started = true → P'.started = true := by exact fun h => h
  closed : P.closed = true → P'.closed = true := by exact fun h => h
  /-- Only `start()` still puts a runtime into the deque of a closed pool. -/
  ready : P.closed = true →
      P'.ready = P.ready ∨ P'.ready = [] ∨ c.inStart = true := by
    exact fun _ => .inl rfl
  /-- Only `start()` and `close()` write the flags. -/
  flags : (P'.starting = P.starting ∧ P'.closed = P.closed) ∨ c.inStart = true ∨
      P.started = false ∨ (careful = true → P.starting = false) := by
    exact .inl ⟨rfl, rfl⟩
  drains : P'.drains = P.drains ∨ (c = .gathering ∧ P'.ready = []) := by exact .inl rfl
  lost : careful = true → P'.lost = P.lost := by exact fun _ => rfl
  closesCancelled : careful = true → P'.closesCancelled = P.closesCancelled := by
    exact fun _ => rfl

section

variable {careful : Bool} {P P' : AsyncPool} {c c' : Task}

/-- An open pool's deque may be exchanged. -/
theorem stepEffect_ready (hopen : P.closed = false) (l : List ℕ) :
    StepEffect careful P c { P with ready := l } where
  ready := fun h => nomatch hopen.symm.trans h

/-- A runtime is dropped whose start has failed. -/
theorem mem_dropped_append {r q : ℕ} (hfailed : (r, .failed) ∈ P.outcomes)
    (h : q ∈ P.dropped ++ [r]) : q ∈ P.dropped ∨ (q, .failed) ∈ P.outcomes := by
  rcases mem_append.1 h with h | h
  · exact .inl h
  · rw [mem_singleton.1 h]
    exact .inr hfailed

/-- A call of `_new` that fails closes the pool for `start()`. -/
theorem stepEffect_failure {role : Role} {dropped : List ℕ}
    (hdropped : ∀ r ∈ dropped, r ∈ P.dropped ∨ (r, .failed) ∈ P.outcomes)
    (hc : role = .starter → c.inStart = true) :
    StepEffect careful P c ({ P with dropped := dropped }.failure role) := by
  cases role with
  | starter =>
    exact { dropped := hdropped, closed := fun _ => rfl, flags := .inr (.inl (hc rfl)) }
  | filler | checkout => exact { dropped := hdropped }

theorem stepEffect_receive {role : Role} {r : ℕ} :
    StepEffect careful P (.awaits role r) (P.receive r role).1 := by
  cases role with
  | starter => exact { ready := fun _ => .inr (.inr rfl), flags := .inr (.inl rfl) }
  | filler =>
    simp only [AsyncPool.receive]
    split
    · exact {}
    next hopen =>
      exact stepEffect_ready (by simpa using hopen) _
  | checkout => exact {}

theorem stepEffect_choose {chosen : Option ℕ} {rest : List ℕ}
    (hrest : P.closed = true → rest = P.ready) :
    StepEffect careful P c ({ P with ready := rest }.choose chosen).1 := by
  cases chosen <;> exact { ready := fun h => .inl (hrest h) }

/-- **What a step does.** -/
theorem TaskStep.effect (hs : TaskStep careful P c P' c') : StepEffect careful P c P' := by
  cases hs with
  | startRefused | discards hok | checkoutRefused | closesNext | fills hopen | fillerEnds
  | closesItem | closeEnds | dies => exact {}
  | startBegins hnew hopen => exact { started := fun _ => rfl, flags := .inr (.inr (.inl hnew)) }
  | gives | cancelled => exact stepEffect_failure (fun _ => .inl) fun h => by rw [h]; rfl
  | reserves hopen => exact { nextRuntime := Nat.le_succ _ }
  | takes hopen hready halive | retires hrole hopen hready | findsDead hopen hstarted hlook =>
    exact { ready := fun h => nomatch hopen.symm.trans h }
  | resumes hok => exact stepEffect_receive
  | startFails hfailed =>
    exact stepEffect_failure (fun _ => mem_dropped_append hfailed) fun h => by rw [h]; rfl
  | discardsNone hfailed => exact { dropped := fun _ => mem_dropped_append hfailed }
  | finds hopen hstarted hlook =>
    exact stepEffect_choose fun h => nomatch hopen.symm.trans h
  | closedAll => exact stepEffect_choose fun _ => rfl
  | checkoutCancelled hcareful =>
    refine { lost := fun h => ?_ }
    obtain ⟨rfl, rfl⟩ := hcareful h
    simp
  | closeBegins hcareful =>
    exact { closed := fun _ => rfl, flags := .inr (.inr (.inr hcareful)) }
  | drains => exact { ready := fun _ => .inr (.inl rfl), drains := .inr ⟨rfl, rfl⟩ }
  | gatherCancelled hcareful =>
    exact { closesCancelled := fun h => nomatch hcareful.symm.trans h }
  | closeCancelled hcareful =>
    refine { lost := fun h => ?_ }
    rw [hcareful h, append_nil]

/-! ## The invariants over a run -/

/-- **A step keeps the pool's invariant.** -/
theorem StepEffect.poolSound (he : StepEffect careful P c P') (hI : PoolSound careful P)
    (hP : TaskSound careful P c) : PoolSound careful P' where
  failed := by
    intro r h
    rw [he.outcomes]
    exact (he.dropped r h).elim (hI.failed r) id
  once := by
    rw [he.outcomes]
    exact hI.once
  made := by
    intro r h
    rw [he.outcomes] at h
    exact (hI.made r h).trans_le he.nextRuntime
  kept := by
    intro hcareful
    have hk := hI.kept hcareful
    refine ⟨(he.lost hcareful).trans hk.lost, (he.closesCancelled hcareful).trans hk.cancelled, ?_⟩
    intro hpos
    rcases he.drains with hd | ⟨hg, hready⟩
    · obtain ⟨hclosed, hready⟩ := hk.drained (hd ▸ hpos)
      refine ⟨he.closed hclosed, ?_⟩
      rcases he.ready hclosed with h | h | h
      · exact h.trans hready
      · exact h
      · -- `start()` is not in progress in a closed pool
        nomatch (hP.starting hcareful h).2.symm.trans hclosed
    · exact ⟨he.closed (hP.gathering hg), hready⟩

/-- **A step keeps the invariant of every other task.** -/
theorem StepEffect.taskSound {d : Task} (he : StepEffect careful P c P')
    (hP : TaskSound careful P d) (hR : StartApart c d) : TaskSound careful P' d where
  started := fun hd => he.started (hP.started hd)
  starting := by
    intro hcareful hd
    obtain ⟨hstarting, hopen⟩ := hP.starting hcareful hd
    rcases he.flags with ⟨h1, h2⟩ | h | h | h
    · exact ⟨h1.trans hstarting, h2.trans hopen⟩
    · exact absurd ⟨h, hd⟩ hR
    · nomatch h.symm.trans (hP.started hd)
    · nomatch (h hcareful).symm.trans hstarting
  gathering := fun hd => he.closed (hP.gathering hd)

theorem Task.Plain.sound (h : c.Plain) : TaskSound careful P c := by
  rcases h with rfl | rfl | rfl <;> constructor <;> simp

theorem Task.Plain.inStart (h : c.Plain) : c.inStart = false := by
  rcases h with rfl | rfl | rfl <;> rfl

/-- `start()` enters `_new` once. -/
theorem TaskStep.inStart (hs : TaskStep careful P c P' c') (h : c'.inStart = true) :
    c.inStart = true ∨ P.started = false := by
  cases hs with
  | startBegins hnew hopen => exact .inr hnew
  | gives | startFails =>
    rw [(AsyncPool.afterFailure_plain _).inStart] at h
    exact absurd h (by decide)
  | @reserves role hopen =>
    cases role with
    | starter => exact .inl rfl
    | _ => exact absurd h (by simp)
  | retires | dies => exact .inl h
  | resumes hok =>
    rw [(P.receive_plain _ _).inStart] at h
    exact absurd h (by decide)
  | finds hopen hstarted hlook =>
    rw [(AsyncPool.choose_plain _ _).inStart] at h
    exact absurd h (by decide)
  | closedAll =>
    rw [(P.choose_plain _).inStart] at h
    exact absurd h (by decide)
  | _ => exact absurd h (by simp)

/-- **A step keeps the invariant of its own task.** -/
theorem TaskStep.taskSound (hs : TaskStep careful P c P' c') (hP : TaskSound careful P c) :
    TaskSound careful P' c' := by
  cases hs with
  | startBegins hnew hopen =>
    exact ⟨fun _ => rfl, fun _ _ => ⟨rfl, hopen⟩, by simp⟩
  | gives | startFails => exact (AsyncPool.afterFailure_plain _).sound
  | @reserves role hopen =>
    have hin : (Task.awaits role P.nextRuntime).inStart = (Task.asks role).inStart := by
      cases role <;> rfl
    exact ⟨fun h => hP.started (hin ▸ h), fun hc h => hP.starting hc (hin ▸ h), by simp⟩
  | retires | dies => exact ⟨hP.started, hP.starting, hP.gathering⟩
  | resumes hok => exact (P.receive_plain _ _).sound
  | finds hopen hstarted hlook => exact (AsyncPool.choose_plain _ _).sound
  | closedAll => exact (P.choose_plain _).sound
  | closeBegins hcareful => constructor <;> simp
  | _ => constructor <;> simp

end

/-- The environment keeps the pool's invariant. -/
theorem LoopEnv.poolSound {careful : Bool} {P P' : AsyncPool} (henv : LoopEnv P P')
    (hI : PoolSound careful P) : PoolSound careful P' := by
  cases henv with
  | startEnds r outcome hcreated hnew =>
    refine ⟨fun q hq => mem_append_left _ (hI.failed q hq), ?_, ?_, fun hcareful => ?_⟩
    · simp only [map_append, map_cons, map_nil]
      exact nodup_append.2 ⟨hI.once, nodup_singleton _, fun q hq q' hq' heq => by
        obtain rfl := mem_singleton.1 hq'
        exact hnew (heq ▸ hq)⟩
    · intro q hq
      simp only [map_append, map_cons, map_nil, mem_append, mem_singleton] at hq
      rcases hq with hq | rfl
      · exact hI.made q hq
      · exact hcreated
    · have hk := hI.kept hcareful
      exact ⟨hk.lost, hk.cancelled, hk.drained⟩
  | dies hplaced =>
    refine ⟨hI.failed, hI.once, hI.made, fun hcareful => ?_⟩
    have hk := hI.kept hcareful
    exact ⟨hk.lost, hk.cancelled, hk.drained⟩

variable {sys : Sys AsyncPool Task}

/-- **The invariants hold in every run.** -/
theorem poolSound_of_reachable {careful : Bool} (h : LoopReachable careful sys) :
    PoolSound careful sys.shared := by
  refine (reachable_apart (I := PoolSound careful) (P := TaskSound careful)
    (R := StartApart) ?_ ?_ ?_ ?_ ?_ ?_ ?_ ?_ h).1
  · exact fun h h' => h h'.symm
  · constructor <;> simp [AsyncPool.new]
    exact fun _ => ⟨rfl, rfl, by simp⟩
  · exact fun hs hI hP => ⟨hs.effect.poolSound hI hP, hs.taskSound hP⟩
  · intro P c P' c' d hs hI hc hd hR
    refine ⟨hs.effect.taskSound hd hR, fun ⟨hc', hd'⟩ => ?_⟩
    rcases hs.inStart hc' with h | h
    · exact hR ⟨h, hd'⟩
    · nomatch h.symm.trans (hd.started hd')
  · intro P c hjoin _
    cases hjoin <;> constructor <;> simp
  · intro P c d hjoin _ _
    cases hjoin <;> simp [StartApart]
  · exact fun henv hI => henv.poolSound hI
  · intro P P' d henv hI hd
    cases henv <;> exact ⟨hd.started, hd.starting, hd.gathering⟩

/-! ## What a checkout has in hand -/

theorem Task.mem_owned_of_offers {c : Task} {r : ℕ} (h : c.offers = some r) : r ∈ c.owned := by
  cases c with
  | awaits role => cases role <;> simp_all [offers, owned]
  | closingDead => simp_all [offers, owned]
  | _ => simp [offers] at h

theorem Task.Plain.offers {c : Task} (h : c.Plain) : c.offers = none := by
  rcases h with rfl | rfl | rfl <;> rfl

/-- **What is known of the dead**: they were created, what the tasks offer is not
among them, and what was handed out was not. -/
structure Spared (sys : Sys AsyncPool Task) : Prop where
  made : ∀ r ∈ sys.shared.dead, r < sys.shared.nextRuntime
  offers : ∀ c ∈ sys.parts, ∀ r, c.offers = some r → r ∉ sys.shared.dead
  handed : HandedAlive sys.shared

section

variable {P P' : AsyncPool} {c c' : Task}

theorem HandedAlive.hand (h : HandedAlive P) {r : ℕ} (hr : r ∉ P.dead) : HandedAlive (P.hand r) := by
  intro x hx
  rcases mem_append.1 hx with hx | hx
  · exact h x hx
  · rw [mem_singleton.1 hx]
    simpa using hr

/-- **A step of a careful run hands out what lives**, and goes on with what lives. -/
theorem TaskStep.spares (hs : TaskStep true P c P' c') (hmade : ∀ r ∈ P.dead, r < P.nextRuntime)
    (hoffers : ∀ r, c.offers = some r → r ∉ P.dead) (hhanded : HandedAlive P) :
    (∀ r, c'.offers = some r → r ∉ P'.dead) ∧ HandedAlive P' := by
  have hplain : c'.Plain → ∀ r, c'.offers = some r → r ∉ P'.dead := by
    intro hc' r hr
    simp [hc'.offers] at hr
  cases hs with
  | @gives role =>
    refine ⟨hplain (AsyncPool.afterFailure_plain _), ?_⟩
    cases role <;> exact hhanded
  | @startFails role =>
    refine ⟨hplain (AsyncPool.afterFailure_plain _), ?_⟩
    cases role <;> exact hhanded
  | @cancelled role =>
    refine ⟨by simp [Task.offers], ?_⟩
    cases role <;> exact hhanded
  | @reserves role hopen =>
    refine ⟨fun r hr hdead => ?_, hhanded⟩
    have hnext : r = P.nextRuntime := by
      simpa [Task.owned] using Task.mem_owned_of_offers hr
    exact absurd (hmade r hdead) (by omega)
  | takes hopen hready halive =>
    exact ⟨by simp [Task.offers], HandedAlive.hand hhanded halive⟩
  | @resumes role r hok =>
    refine ⟨hplain (P.receive_plain _ _), ?_⟩
    cases role with
    | starter => exact hhanded
    | filler =>
      simp only [AsyncPool.receive]
      split <;> exact hhanded
    | checkout => exact hhanded.hand (hoffers r rfl)
  | @finds chosen rest hopen hstarted hlook =>
    refine ⟨hplain (AsyncPool.choose_plain _ _), ?_⟩
    cases chosen with
    | none => exact hhanded
    | some r => exact HandedAlive.hand hhanded (AsyncPool.alive_of_look hlook)
  | @findsDead q dead rest chosen hopen hstarted hlook =>
    refine ⟨fun r hr => ?_, hhanded⟩
    obtain rfl : chosen = some r := hr
    have halive : r ∉ P.dead := AsyncPool.alive_of_look hlook
    exact halive
  | closesNext => exact ⟨hoffers, hhanded⟩
  | @closedAll chosen =>
    refine ⟨hplain (P.choose_plain _), ?_⟩
    cases chosen with
    | none => exact hhanded
    | some r => exact hhanded.hand (hoffers r rfl)
  | @dies _ r howned hcareful =>
    refine ⟨fun q hq hdead => ?_, hhanded⟩
    rcases mem_cons.1 hdead with rfl | hdead
    · exact hcareful rfl hq
    · exact hoffers q hq hdead
  | _ => exact ⟨by simp [Task.offers], hhanded⟩

/-- Only what a task has in its hands dies in its step. -/
theorem TaskStep.dead {careful : Bool} (hs : TaskStep careful P c P' c') {r : ℕ} (hr : r ∈ P'.dead) :
    r ∈ P.dead ∨ r ∈ c.owned := by
  cases hs with
  | @gives role | @startFails role | @cancelled role => cases role <;> exact .inl hr
  | @resumes role =>
    cases role with
    | filler =>
      simp only [AsyncPool.receive] at hr
      split at hr <;> exact .inl hr
    | _ => exact .inl hr
  | @finds chosen | @closedAll chosen => cases chosen <;> exact .inl hr
  | dies howned =>
    rcases mem_cons.1 hr with rfl | hr
    · exact .inr howned
    · exact .inl hr
  | _ => exact .inl hr

end

/-- **In a careful run no checkout has a dead runtime in hand.** -/
theorem spared_of_careful {sys : Sys AsyncPool Task} (h : LoopReachable true sys) : Spared sys := by
  induction h with
  | refl => exact ⟨by simp [AsyncPool.new], by simp, by simp [HandedAlive, AsyncPool.new]⟩
  | tail hprev hmove ih =>
    cases hmove with
    | @act P P' c c' before after hs =>
      obtain ⟨hoffers, hhanded⟩ := hs.spares ih.made (ih.offers c (by simp)) ih.handed
      refine ⟨fun r hr => ?_, fun d hd r hr hdead => ?_, hhanded⟩
      · refine lt_of_lt_of_le ?_ hs.effect.nextRuntime
        exact (hs.dead hr).elim (ih.made r) fun howned => (owned_apart hprev howned).1
      · simp only [mem_append, mem_cons] at hd
        rcases or_left_comm.1 hd with rfl | hd
        · exact hoffers r hr hdead
        · -- what dies is in the hands of the task that moves
          rcases hs.dead hdead with hdead | howned
          · exact ih.offers d (by simp; tauto) r hr hdead
          · exact (owned_apart hprev howned).2 d (mem_append.2 hd) (Task.mem_owned_of_offers hr)
    | join parts hnew =>
      refine ⟨ih.made, fun d hd r hr => ?_, ih.handed⟩
      rcases mem_append.1 hd with hd | hd
      · exact ih.offers d hd r hr
      · obtain rfl := mem_singleton.1 hd
        cases hnew <;> simp [Task.offers] at hr
    | env parts hchange =>
      cases hchange with
      | startEnds => exact ⟨ih.made, ih.offers, ih.handed⟩
      | @dies q hplaced =>
        obtain ⟨hmade, hfree⟩ := owned_of_placed hprev hplaced
        refine ⟨fun r hr => ?_, fun d hd r hr hdead => ?_, ih.handed⟩
        · rcases mem_cons.1 hr with rfl | hr
          · exact hmade
          · exact ih.made r hr
        · rcases mem_cons.1 hdead with rfl | hdead
          · exact hfree d hd (Task.mem_owned_of_offers hr)
          · exact ih.offers d hd r hr hdead

/-! ## Single use, and no leak -/

/-- In any run, a runtime is handed out once at most. -/
theorem singleUse_of_reachable {careful : Bool} (h : LoopReachable careful sys) :
    SingleUse sys.shared := by
  have hnodup := placed_nodup h
  simp only [AsyncPool.placed, append_assoc] at hnodup
  exact (nodup_append.1 (nodup_append.1 hnodup).2.1).1

/-- In a careful run nothing is left in a pool whose tasks have ended. -/
theorem noLeak_of_careful (h : LoopReachable true sys) : NoLeak sys := by
  intro hbegun hended r hok
  have hI := poolSound_of_reachable h
  have hk := hI.kept rfl
  -- some `close()` took the deque, and it stayed empty
  have hcloses := closes_conserved h
  have hgather : (sys.parts.map Task.gathers).sum = 0 := by
    refine sum_eq_zero fun n hn => ?_
    obtain ⟨c, hc, rfl⟩ := mem_map.1 hn
    rw [hended c hc]
    rfl
  have hdrains : 0 < sys.shared.drains := by
    have := hk.cancelled
    omega
  obtain ⟨-, hready⟩ := hk.drained hdrains
  -- so the runtime is in one of the other places
  have hcount := runtime_conserved h r
  have howned : (sys.parts.map fun c => c.owned.count r).sum = 0 := by
    refine sum_eq_zero fun n hn => ?_
    obtain ⟨c, hc, rfl⟩ := mem_map.1 hn
    rw [hended c hc]
    rfl
  have hmade : r < sys.shared.nextRuntime := hI.made r (mem_map.2 ⟨_, hok, rfl⟩)
  have hplaced : r ∈ sys.shared.placed := by
    rw [← count_pos_iff]
    simp only [AsyncPool.created, hmade, if_true] at hcount
    omega
  have hdropped : r ∉ sys.shared.dropped := by
    intro hd
    have hinj := inj_on_of_nodup_map hI.once hok (hI.failed r hd) rfl
    simp at hinj
  simp only [AsyncPool.placed, hready, hk.lost, nil_append, append_nil, mem_append] at hplaced
  rcases hplaced with (hplaced | hplaced) | hplaced
  · exact .inl hplaced
  · exact .inr hplaced
  · exact absurd hplaced hdropped

/-- **Single use in every run**; in every careful one, what is handed out lives
then, and nothing is left over. -/
theorem pool_single_use_no_leak (sys : Interleaving.Sys AsyncPool Task) :
    (∀ careful, LoopReachable careful sys → SingleUse sys.shared) ∧
      (LoopReachable true sys → HandedAlive sys.shared ∧ NoLeak sys) :=
  ⟨fun _ h => singleUse_of_reachable h, fun h => ⟨(spared_of_careful h).handed, noLeak_of_careful h⟩⟩

/-- A checkout takes the first runtime, a filler starts the second, which dies, and
a checkout closes it and gets a third; the pool is closed. -/
theorem pool_single_use_no_leak_run :
    ∃ sys, LoopReachable true sys ∧ sys.shared.handed = [⟨0, false⟩, ⟨2, false⟩] ∧
      sys.shared.closedRuntimes = [1] ∧ SingleUse sys.shared ∧ HandedAlive sys.shared ∧
      NoLeak sys := by
  have hjoin := (Interleaving.reachable_nil : LoopReachable true ⟨.new, []⟩).joins .start
  have hasks := hjoin.acts [] [] (.startBegins rfl rfl)
  have hnew := hasks.acts [] [] (.reserves (.inl rfl))
  have hok := hnew.changes (.startEnds 0 .ok (by decide) (by decide))
  have hready : LoopReachable true ⟨_, [.ended]⟩ := hok.acts [] [] (.resumes (by decide))
  have hcheckout := Interleaving.Reachable.joins hready .checkout
  have hfound := hcheckout.acts [Task.ended] [] (.finds rfl rfl (Eq.refl ([], some 0, [])))
  have hhanded : LoopReachable true ⟨_, [.ended, .ended]⟩ := hfound
  have hfiller := Interleaving.Reachable.joins hhanded .filler
  have hfills := hfiller.acts [Task.ended, .ended] [] (.fills rfl)
  have hsecond := hfills.acts [Task.ended, .ended] [] (.reserves (.inl rfl))
  have hok' := hsecond.changes (.startEnds 1 .ok (by decide) (by decide))
  have hfilled : LoopReachable true ⟨_, [.ended, .ended, .fills]⟩ :=
    hok'.acts [Task.ended, .ended] [] (.resumes (by decide))
  have hdead := Interleaving.Reachable.changes hfilled (.dies (r := 1) (by decide))
  have hsearch := hdead.joins .checkout
  have hcloses := hsearch.acts [Task.ended, .ended, .fills] []
    (.findsDead rfl rfl (Eq.refl ([1], none, [])))
  have hasks' : LoopReachable true ⟨_, [.ended, .ended, .fills, .asks .checkout]⟩ :=
    hcloses.acts [Task.ended, .ended, .fills] [] .closedAll
  have hthird := Interleaving.Reachable.acts [Task.ended, .ended, .fills] [] hasks'
    (.reserves (.inl rfl))
  have hclose := hthird.joins .close
  have hgathers := hclose.acts [Task.ended, .ended, .fills, .awaits .checkout 2] []
    (.closeBegins (fun _ => rfl))
  have hfillerEnds := hgathers.acts [Task.ended, .ended] [.awaits .checkout 2, .gathering] .fillerEnds
  have hdrained := hfillerEnds.acts [Task.ended, .ended, .ended, .awaits .checkout 2] [] .drains
  have hended := hdrained.acts [Task.ended, .ended, .ended, .awaits .checkout 2] [] .closeEnds
  have hok'' := hended.changes (.startEnds 2 .ok (by decide) (by decide))
  have hgiven := hok''.acts [Task.ended, .ended, .ended] [Task.ended] (.resumes (by decide))
  obtain ⟨hsingle, hleak⟩ := pool_single_use_no_leak _
  exact ⟨_, hgiven, rfl, rfl, hsingle true hgiven, hleak hgiven⟩

/-- **A pool that is closed while it starts leaks its first runtime.** Nothing
is cancelled: `close()` finds an empty deque, and `start()` then fills it. -/
theorem no_leak_fails : ∃ sys, LoopReachable false sys ∧ ¬NoLeak sys := by
  have hjoin := (Interleaving.reachable_nil : LoopReachable false ⟨.new, []⟩).joins .start
  have hasks := hjoin.acts [] [] (.startBegins rfl rfl)
  have hnew := hasks.acts [] [] (.reserves (.inl rfl))
  have hclose := hnew.joins .close
  have hgathers := hclose.acts [Task.awaits .starter 0] [] (.closeBegins (by decide))
  have hdrained := hgathers.acts [Task.awaits .starter 0] [] .drains
  have hclosed := hdrained.acts [Task.awaits .starter 0] [] .closeEnds
  have hok := hclosed.changes (.startEnds 0 .ok (by decide) (by decide))
  have hready := hok.acts [] [Task.ended] (.resumes (by decide))
  refine ⟨_, hready, fun hleak => ?_⟩
  have hlost := hleak (by decide) (by decide) 0 (by decide)
  exact absurd hlost (by decide)

end Pydeno.Workers
