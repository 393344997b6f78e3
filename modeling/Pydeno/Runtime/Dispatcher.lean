import Pydeno.Runtime.Model.Dispatcher
/-!
# Who answers a job, and how `terminate` returns

Every job is in one place: its command in the channel, in hand, active, queued,
or answered (`held`), and the dispatcher only moves it on (`Loop.count_held`).
So what was admitted is answered once by the time the loop is left.

`terminate` asks twice, by the flag and by a command. The loop may leave by the
flag, and then drops the command with its responder; it does so only with a job
at hand.
-/

namespace Pydeno.Runtime.Dispatch

open List
open Command (terminate shutdown)

namespace Rt

/-! ## Where jobs are -/

/-- The job that a stage of the loop holds. -/
def inHand (s : Rt) : List ℕ :=
  match s.place with
  | .admits id | .runs id => [id]
  | _ => []

end Rt

/-- The job of a command. -/
def Command.ids : Command → List ℕ
  | .job id | .sync id => [id]
  | _ => []

namespace Rt

/-- **Every job that was ever sent**, where it is now. -/
def held (s : Rt) : List ℕ :=
  s.answers.map Prod.fst ++
    (s.inHand ++ (s.active.toList ++ (s.pending ++ s.channel.flatMap Command.ids)))

end Rt

section

variable {s s' : Rt} {grace : Bool}

theorem count_completeActiveJob {id : ℕ} (h : s.active = some id) (n : ℕ) :
    (s.completeActiveJob id).held.count n = s.held.count n := by
  unfold Rt.held Rt.completeActiveJob Rt.inHand
  have hmoved : ∀ l : List ℕ, l.head?.toList ++ l.tail = l := fun l => by cases l <;> rfl
  have hpending := congrArg (List.count n) (hmoved s.pending)
  rw [count_append] at hpending
  simp only [h, Rt.finish, map_append, map_cons, map_nil, count_append, Option.toList_some]
  omega

theorem map_fst_finish (s : Rt) (l : List ℕ) (answer : Answer) :
    (l.map fun id => s.finish id answer).map Prod.fst = l := by
  rw [map_map]
  exact map_id'' (fun id => rfl) l

/-- **The dispatcher moves jobs, and loses none.** -/
theorem Loop.count_held (h : Loop s s') (n : ℕ) : s'.held.count n = s.held.count n := by
  cases h with
  | pollFails hat hactive => exact count_completeActiveJob hactive n
  | @jobReady id hat hactive =>
    have hsame := count_completeActiveJob hactive n
    have hhand : (s.completeActiveJob id).inHand = [] := by
      unfold Rt.inHand Rt.completeActiveJob
      simp only [hat]
    rw [← hsame]
    unfold Rt.held
    rw [hhand]
    simp only [Rt.inHand]
  | polled hat | jobPending hat | passes hat | again hat | wakes hat =>
    simp only [Rt.held, Rt.inHand, hat]
  | aborts hat | channelClosed hat =>
    simp only [Rt.held, Rt.inHand, hat, Rt.cancelAllJobs, Rt.finalizeTermination, Rt.leave,
      map_append, map_fst_finish, count_append, Option.toList_none]
    simp only [count_nil]
    omega
  | terminates hat hjust hchannel =>
    simp only [Rt.held, Rt.inHand, hat, hchannel, Rt.cancelAllJobs, Rt.finalizeTermination,
      Rt.leave, map_append, map_fst_finish, count_append, Option.toList_none,
      flatMap_cons, Command.ids]
    simp only [count_nil]
    omega
  | shutsDown hat hjust hchannel =>
    simp only [Rt.held, Rt.inHand, hat, hchannel, Rt.leave, flatMap_cons, Command.ids, nil_append]
  | admits hat hjust hchannel | runs hat hjust hchannel =>
    simp only [Rt.held, Rt.inHand, hat, hchannel, flatMap_cons, Command.ids,
      count_append, count_nil]
    omega
  | refuses hat hjust hchannel =>
    rcases hchannel with hchannel | hchannel <;>
    · simp only [Rt.held, Rt.inHand, hat, hchannel, flatMap_cons, Command.ids,
        map_append, map_cons, map_nil, count_append, count_nil]
      omega
  | submits hat =>
    simp only [Rt.held, Rt.inHand, hat, Rt.submitJob]
    split
    next hnone =>
      rw [Option.isNone_iff_eq_none] at hnone
      simp only [hnone, count_append, count_nil, Option.toList_some, Option.toList_none]
      omega
    · simp only [count_append, count_nil]
      omega
  | resumeFails hat =>
    simp only [Rt.held, Rt.inHand, hat, map_append, map_cons, map_nil, count_append, count_nil]
    omega
  | ran hat =>
    simp only [Rt.held, Rt.inHand, hat, Rt.finish, map_append, map_cons, map_nil,
      count_append, count_nil]
    omega

/-! ## What a stage of the loop does -/

/-- The jobs that are admitted and have no answer. -/
def Rt.atWork (s : Rt) : List ℕ := s.inHand ++ (s.active.toList ++ s.pending)

/-- **What one stage of the loop does to jobs**: the answers it gives, and where
the jobs at work are. -/
structure Moves (s s' : Rt) (new : List (ℕ × Answer)) : Prop where
  answers : s'.answers = s.answers ++ new
  results : ∀ {id}, (id, .result) ∈ new → id ∈ s'.completed
  timedOut : ∀ {id}, (id, .timedOut) ∈ new → id ∈ s.fired
  completed : ∀ {id}, id ∈ s.completed → id ∈ s'.completed
  settled : ∀ {id}, id ∈ s'.completed →
    id ∈ s.completed ∨ (id, .result) ∈ new ∨ (id, .timedOut) ∈ new
  shut : s'.shut = false → s.shut = false
  moved : s'.shut = false → ∀ {id}, id ∈ s.atWork →
    id ∈ s'.atWork ∨ ∃ answer ≠ .refused, (id, answer) ∈ new
  admitted : ∀ {id}, id ∈ s'.admitted → id ∈ s.admitted ∨ id ∈ s'.atWork
  exited : s'.place = .exited → s'.shut = false → s'.atWork = []
  fired : s'.fired = s.fired
  nextCommand : s'.nextCommand = s.nextCommand

/-- What a job is answered with when it is done. -/
theorem mem_finish {id id' : ℕ} {answer answer' : Answer}
    (h : (id', answer') = s.finish id answer) :
    id' = id ∧ (answer' = answer ∨ (answer' = .timedOut ∧ id ∈ s.fired)) := by
  unfold Rt.finish at h
  rw [Prod.mk.injEq] at h
  obtain ⟨rfl, h⟩ := h
  split at h
  next hfired =>
    exact ⟨rfl, .inr ⟨h, hfired⟩⟩
  · exact ⟨rfl, .inl h⟩

/-- The answer of a job that came to an outcome of its own. -/
def Own (s : Rt) (id : ℕ) (entry : ℕ × Answer) : Prop :=
  entry = (id, .result) ∨ (entry = (id, .timedOut) ∧ id ∈ s.fired)

theorem own_finish (s : Rt) (id : ℕ) : Own s id (s.finish id .result) := by
  unfold Rt.finish
  split
  next hfired =>
    exact .inr ⟨rfl, hfired⟩
  · exact .inl rfl

/-- A stage that gives no answer and keeps the jobs at work. -/
theorem moves_of_quiet (hwork : ∀ n, n ∈ s.atWork → n ∈ s'.atWork)
    (hadmitted : ∀ n, n ∈ s'.admitted → n ∈ s.admitted ∨ n ∈ s'.atWork := by exact fun _ => .inl)
    (hanswers : s'.answers = s.answers := by rfl) (hcompleted : s'.completed = s.completed := by rfl)
    (hshut : s'.shut = s.shut := by rfl) (hplace : s'.place ≠ .exited := by exact Place.noConfusion)
    (hfired : s'.fired = s.fired := by rfl) (hnext : s'.nextCommand = s.nextCommand := by rfl) :
    Moves s s' [] where
  answers := by rw [hanswers, append_nil]
  results := fun h => (not_mem_nil h).elim
  timedOut := fun h => (not_mem_nil h).elim
  completed := fun h => hcompleted ▸ h
  settled := fun h => .inl (hcompleted ▸ h)
  shut := fun h => hshut ▸ h
  moved := fun _ n h => .inl (hwork n h)
  admitted := hadmitted _
  exited := fun h => absurd h hplace
  fired := hfired
  nextCommand := hnext

/-- A job comes to an outcome of its own. -/
theorem moves_of_own {id : ℕ} {entry : ℕ × Answer} (hown : Own s id entry)
    (hwork : ∀ n, n ∈ s.atWork → n ∈ s'.atWork ∨ n = id)
    (hplace : s'.place ≠ .exited := by exact Place.noConfusion)
    (hanswers : s'.answers = s.answers ++ [entry] := by rfl)
    (hcompleted : s'.completed = s.completed ++ [id] := by rfl) (hshut : s'.shut = s.shut := by rfl)
    (hadmitted : s'.admitted = s.admitted := by rfl) (hfired : s'.fired = s.fired := by rfl)
    (hnext : s'.nextCommand = s.nextCommand := by rfl) : Moves s s' [entry] where
  answers := hanswers
  results := fun h => by
    rw [hcompleted]
    rw [mem_singleton] at h
    rcases hown with rfl | ⟨rfl, -⟩
    · cases h
      exact mem_append_right _ (mem_singleton_self _)
    · cases h
  timedOut := fun h => by
    rw [mem_singleton] at h
    rcases hown with rfl | ⟨rfl, hid⟩
    · cases h
    · cases h
      exact hid
  completed := fun h => by
    rw [hcompleted]
    exact mem_append_left _ h
  settled := fun {n} h => by
    rw [hcompleted, mem_append, mem_singleton] at h
    rcases h with h | rfl
    · exact .inl h
    · rcases hown with rfl | ⟨rfl, -⟩
      · exact .inr (.inl (mem_singleton_self _))
      · exact .inr (.inr (mem_singleton_self _))
  shut := fun h => hshut ▸ h
  moved := fun _ n h => by
    rcases hwork n h with h | rfl
    · exact .inl h
    · rcases hown with rfl | ⟨rfl, -⟩
      · exact .inr ⟨.result, by decide, mem_singleton_self _⟩
      · exact .inr ⟨.timedOut, by decide, mem_singleton_self _⟩
  admitted := fun h => .inl (hadmitted ▸ h)
  exited := fun h => absurd h hplace
  fired := hfired
  nextCommand := hnext

/-- Every job at work is cancelled. -/
theorem moves_of_cancel (hhand : s.inHand = []) (hanswers : s'.answers =
      s.answers ++ (s.active.toList ++ s.pending).map fun id => s.finish id .terminated)
    (hcompleted : s'.completed = s.completed) (hshut : s'.shut = s.shut)
    (hwork : s'.atWork = []) (hadmitted : s'.admitted = s.admitted) (hfired : s'.fired = s.fired)
    (hnext : s'.nextCommand = s.nextCommand) :
    Moves s s' ((s.active.toList ++ s.pending).map fun id => s.finish id .terminated) where
  answers := hanswers
  results := fun h => by
    obtain ⟨id, -, heq⟩ := mem_map.1 h
    obtain ⟨-, hr | hr⟩ := mem_finish heq.symm
    · cases hr
    · cases hr.1
  timedOut := fun h => by
    obtain ⟨id, -, heq⟩ := mem_map.1 h
    obtain ⟨rfl, hr | hr⟩ := mem_finish heq.symm
    · cases hr
    · exact hr.2
  completed := fun h => hcompleted ▸ h
  settled := fun h => .inl (hcompleted ▸ h)
  shut := fun h => hshut ▸ h
  moved := fun _ id h => by
    right
    unfold Rt.atWork at h
    rw [hhand, nil_append] at h
    refine ⟨if id ∈ s.fired then .timedOut else .terminated, ?_, mem_map.2 ⟨id, h, rfl⟩⟩
    split <;> decide
  admitted := fun h => .inl (hadmitted ▸ h)
  exited := fun _ _ => hwork
  fired := hfired
  nextCommand := hnext

theorem Loop.moves (h : Loop s s') : ∃ new, Moves s s' new := by
  -- the active job is done, and the next one is active
  have hactive : ∀ {id n : ℕ}, s.active = some id → n ∈ s.active.toList ++ s.pending →
      n ∈ s.pending.head?.toList ++ s.pending.tail ∨ n = id := by
    intro id n hid hn
    rw [hid, Option.toList_some, singleton_append, mem_cons] at hn
    rcases hn with rfl | hn
    · exact .inr rfl
    · refine .inl ?_
      cases hp : s.pending with
      | nil =>
        rw [hp] at hn
        exact (not_mem_nil hn).elim
      | cons next rest => rwa [hp] at hn
  cases h with
  | @pollFails id hat hid =>
    refine ⟨_, moves_of_own (own_finish s _) (fun n hn => ?_) ?_⟩
    · unfold Rt.atWork Rt.inHand at hn ⊢
      simp only [hat, nil_append, Rt.completeActiveJob] at hn ⊢
      exact hactive hid hn
    · simp only [Rt.completeActiveJob, hat]
      exact Place.noConfusion
  | @jobReady id hat hid =>
    refine ⟨_, moves_of_own (own_finish s _) fun n hn => ?_⟩
    unfold Rt.atWork Rt.inHand at hn ⊢
    simp only [hat, nil_append, Rt.completeActiveJob] at hn ⊢
    exact hactive hid hn
  | polled hat | jobPending hat | passes hat | again hat | wakes hat =>
    refine ⟨_, moves_of_quiet fun n hn => ?_⟩
    simpa only [Rt.atWork, Rt.inHand, hat] using hn
  | aborts hat | channelClosed hat | terminates hat =>
    refine ⟨_, moves_of_cancel ?_ rfl rfl rfl rfl rfl rfl rfl⟩
    simp only [Rt.inHand, hat]
  | shutsDown hat =>
    refine ⟨[],
      { answers := (append_nil _).symm
        results := fun h => (not_mem_nil h).elim
        timedOut := fun h => (not_mem_nil h).elim
        completed := fun h => h
        settled := fun h => .inl h
        shut := nofun
        moved := nofun
        admitted := fun h => .inl h
        exited := fun _ h => (nomatch h)
        fired := rfl
        nextCommand := rfl }⟩
  | admits hat | runs hat =>
    refine ⟨_, moves_of_quiet (fun n hn => ?_) fun n hn => ?_⟩
    · simp only [Rt.atWork, Rt.inHand, hat, nil_append] at hn
      exact mem_cons_of_mem _ hn
    · rcases mem_append.mp hn with hn | hn
      · exact .inl hn
      · exact .inr (mem_append_left _ hn)
  | @refuses id rest hat =>
    refine ⟨[(id, .refused)],
      { answers := rfl
        results := fun h => by cases mem_singleton.1 h
        timedOut := fun h => by cases mem_singleton.1 h
        completed := fun h => h
        settled := fun h => .inl h
        shut := fun h => h
        moved := fun _ _ h => .inl (by simpa only [Rt.atWork, Rt.inHand, hat] using h)
        admitted := fun h => .inl h
        exited := nofun
        fired := rfl
        nextCommand := rfl }⟩
  | @submits id hat =>
    unfold Rt.submitJob
    split
    next hnone =>
      rw [Option.isNone_iff_eq_none] at hnone
      refine ⟨_, moves_of_quiet fun n hn => ?_⟩
      simpa only [Rt.atWork, Rt.inHand, hat, hnone, Option.toList_some, Option.toList_none,
        nil_append] using hn
    · refine ⟨_, moves_of_quiet fun n hn => ?_⟩
      simp only [Rt.atWork, Rt.inHand, hat, mem_append, mem_singleton, nil_append] at hn ⊢
      tauto
  | resumeFails hat =>
    refine ⟨_, moves_of_own (.inl rfl) fun n hn => ?_⟩
    unfold Rt.atWork Rt.inHand at hn ⊢
    simp only [hat, mem_append, mem_singleton, nil_append] at hn ⊢
    tauto
  | @ran id hat =>
    refine ⟨_, moves_of_own (own_finish s _) fun n hn => ?_⟩
    unfold Rt.atWork Rt.inHand at hn ⊢
    simp only [hat, mem_append, mem_singleton, nil_append] at hn ⊢
    tauto

/-! ## The ledger -/

/-- **What holds of jobs** in every state. -/
structure Ledger (s : Rt) : Prop where
  nodup : ∀ n, s.held.count n ≤ 1
  fresh : ∀ n, 0 < s.held.count n → n < s.nextCommand
  kept : s.shut = false → ∀ id ∈ s.admitted,
    id ∈ s.atWork ∨ ∃ answer ≠ .refused, (id, answer) ∈ s.answers
  exited : s.place = .exited → s.shut = false → s.atWork = []
  results : ∀ {id}, (id, .result) ∈ s.answers → id ∈ s.completed
  timedOut : ∀ {id}, (id, .timedOut) ∈ s.answers → id ∈ s.fired
  completed : ∀ id ∈ s.completed, (id, .result) ∈ s.answers ∨ (id, .timedOut) ∈ s.answers

theorem ledger_spawn : Ledger .spawn where
  nodup := fun _ => Nat.zero_le 1
  fresh := fun _ h => absurd h (Nat.lt_irrefl 0)
  kept := fun _ _ h => (not_mem_nil h).elim
  exited := nofun
  results := fun h => (not_mem_nil h).elim
  timedOut := fun h => (not_mem_nil h).elim
  completed := fun _ h => (not_mem_nil h).elim

theorem Loop.ledger (h : Loop s s') (hs : Ledger s) : Ledger s' := by
  obtain ⟨new, hm⟩ := h.moves
  have hold : ∀ {e}, e ∈ s.answers → e ∈ s'.answers := fun he =>
    hm.answers ▸ mem_append_left _ he
  have hnew : ∀ {e}, e ∈ new → e ∈ s'.answers := fun he =>
    hm.answers ▸ mem_append_right _ he
  have hsplit : ∀ {e}, e ∈ s'.answers → e ∈ s.answers ∨ e ∈ new := fun he => by
    rwa [hm.answers, mem_append] at he
  refine
    { nodup := fun n => (h.count_held n).symm ▸ hs.nodup n
      fresh := fun n hn => hm.nextCommand ▸ hs.fresh n (h.count_held n ▸ hn)
      kept := ?_
      exited := hm.exited
      results := ?_
      timedOut := ?_
      completed := ?_ }
  · intro hshut id hid
    -- a job that was at work still is, or is answered now
    have hmoved : id ∈ s.atWork → id ∈ s'.atWork ∨ ∃ answer ≠ .refused, (id, answer) ∈ s'.answers := by
      intro hwork
      rcases hm.moved hshut hwork with hwork | ⟨answer, hne, hmem⟩
      · exact .inl hwork
      · exact .inr ⟨answer, hne, hnew hmem⟩
    rcases hm.admitted hid with hid | hid
    · rcases hs.kept (hm.shut hshut) id hid with hwork | ⟨answer, hne, hmem⟩
      · exact hmoved hwork
      · exact .inr ⟨answer, hne, hold hmem⟩
    · exact .inl hid
  · intro id hmem
    rcases hsplit hmem with hmem | hmem
    · exact hm.completed (hs.results hmem)
    · exact hm.results hmem
  · intro id hmem
    rw [hm.fired]
    rcases hsplit hmem with hmem | hmem
    · exact hs.timedOut hmem
    · exact hm.timedOut hmem
  · intro id hid
    rcases hm.settled hid with hid | hmem | hmem
    · rcases hs.completed id hid with hmem | hmem
      · exact .inl (hold hmem)
      · exact .inr (hold hmem)
    · exact .inl (hnew hmem)
    · exact .inr (hnew hmem)

theorem HostStep.ledger (h : HostStep grace s s') (hs : Ledger s) : Ledger s' := by
  have hsend : ∀ {command : Command} {host : Host}, command.ids = [] →
      Ledger { s with channel := s.channel ++ [command], host := host } := by
    intro command host hids
    have hheld : ({ s with channel := s.channel ++ [command], host := host } : Rt).held = s.held := by
      simp only [Rt.held, Rt.inHand, flatMap_append, flatMap_cons, flatMap_nil, hids, append_nil]
    exact { hs with nodup := fun n => hheld ▸ hs.nodup n, fresh := fun n => hheld ▸ hs.fresh n }
  cases h with
  | sends | sendsShutdown => exact hsend rfl
  | _ => exact { hs with }

theorem Others.ledger (h : Others s s') (hs : Ledger s) : Ledger s' := by
  have hsend : ∀ {command : Command}, command.ids = [s.nextCommand] →
      Ledger
        { s with channel := s.channel ++ [command], nextCommand := s.nextCommand + 1 } := by
    intro command hids
    have hheld : ∀ n, ({ s with
        channel := s.channel ++ [command], nextCommand := s.nextCommand + 1 } : Rt).held.count n =
          s.held.count n + [s.nextCommand].count n := by
      intro n
      simp only [Rt.held, Rt.inHand, flatMap_append, flatMap_cons, flatMap_nil, hids,
        append_nil, count_append]
      omega
    refine { hs with nodup := fun n => ?_, fresh := fun n hn => ?_ }
    · rw [hheld]
      by_cases hn : n = s.nextCommand
      · have hnone : s.held.count n = 0 := by
          by_contra hne
          exact absurd (hs.fresh n (Nat.pos_of_ne_zero hne)) (by omega)
        rw [hnone, hn]
        simp
      · have := hs.nodup n
        simpa [count_singleton, Ne.symm hn] using this
    · rw [hheld] at hn
      change n < s.nextCommand + 1
      by_cases heq : n = s.nextCommand
      · omega
      · have hpos : 0 < s.held.count n := by simpa [count_singleton, Ne.symm heq] using hn
        have := hs.fresh n hpos
        omega
  cases h with
  | sendsJob | sendsSync => exact hsend rfl
  | requests => exact { hs with }
  | fires id =>
    exact { hs with timedOut := fun hmem => mem_append_left _ (hs.timedOut hmem) }

theorem Step.ledger (h : Step grace s s') (hs : Ledger s) : Ledger s' := by
  cases h with
  | loop h | host h | others h => exact h.ledger hs

theorem Reachable.ledger (h : Reachable grace s) : Ledger s := by
  induction h with
  | refl => exact ledger_spawn
  | tail _ hstep ih => exact hstep.ledger ih

/-! ## How the loop is left -/

/-- **What holds of the host and the loop** in every state. -/
structure Standing (s : Rt) : Prop where
  receiving : s.receiving = false ↔ s.place = .exited
  exited : s.place = .exited → s.shut = true ∨ s.status = .terminated
  open_ : s.host = .idle ∨ s.host = .terminates →
    terminate ∉ s.channel ∧ shutdown ∉ s.channel ∧ s.shut = false
  shut : s.shut = true ∨ shutdown ∈ s.channel → s.host = .closed

theorem standing_spawn : Standing .spawn where
  receiving := ⟨nofun, nofun⟩
  exited := nofun
  open_ := fun _ => ⟨not_mem_nil, not_mem_nil, rfl⟩
  shut := fun h => h.elim nofun fun h => (not_mem_nil h).elim

/-- What a stage keeps that takes commands at most, and where it goes. -/
theorem Standing.of_sub (hs : Standing s) (hrec : s'.receiving = false ↔ s'.place = .exited)
    (hexited : s'.place = .exited → s'.shut = true ∨ s'.status = .terminated)
    (hshut : s'.shut = s.shut) (hhost : s'.host = s.host)
    (hsub : ∀ c ∈ s'.channel, c ∈ s.channel) : Standing s' := by
  refine ⟨hrec, hexited, fun hidle => ?_, fun hor => ?_⟩
  · rw [hhost] at hidle
    obtain ⟨hterm, hshutdown, hfalse⟩ := hs.open_ hidle
    exact ⟨fun hm => hterm (hsub _ hm), fun hm => hshutdown (hsub _ hm), hshut.trans hfalse⟩
  · rw [hhost]
    rw [hshut] at hor
    exact hs.shut (hor.imp id (hsub _))

theorem submitJob_frame (s : Rt) (id : ℕ) :
    (s.submitJob id).receiving = s.receiving ∧ (s.submitJob id).shut = s.shut ∧
      (s.submitJob id).host = s.host ∧ (s.submitJob id).channel = s.channel := by
  unfold Rt.submitJob
  split <;> exact ⟨rfl, rfl, rfl, rfl⟩

theorem Loop.standing (h : Loop s s') (hs : Standing s) : Standing s' := by
  -- the loop is not left
  have hstay : ∀ {p : Place}, s.place = p → p ≠ .exited → s'.place ≠ .exited →
      s'.receiving = s.receiving → s'.shut = s.shut → s'.host = s.host →
      (∀ c ∈ s'.channel, c ∈ s.channel) → Standing s' := by
    rintro p rfl hplace hplace' hrec hshut hhost hsub
    refine hs.of_sub ?_ (fun hex => absurd hex hplace') hshut hhost hsub
    rw [hrec, hs.receiving]
    exact ⟨fun hex => absurd hex hplace, fun hex => absurd hex hplace'⟩
  -- it is left with the termination final
  have hleave : s'.receiving = false → s'.place = .exited → s'.status = .terminated →
      s'.shut = s.shut → s'.host = s.host → (∀ c ∈ s'.channel, c ∈ s.channel) → Standing s' :=
    fun hrec hplace hstatus => hs.of_sub ⟨fun _ => hplace, fun _ => hrec⟩ fun _ => .inr hstatus
  have htail : ∀ {c : Command} {rest : List Command}, s.channel = c :: rest →
      ∀ d ∈ rest, d ∈ s.channel := fun hc d hd => hc ▸ mem_cons_of_mem _ hd
  have hsame : ∀ c ∈ s.channel, c ∈ s.channel := fun _ hc => hc
  cases h with
  | pollFails hat =>
    refine hstay hat Place.noConfusion ?_ rfl rfl rfl hsame
    simp only [Rt.completeActiveJob, hat]
    exact Place.noConfusion
  | polled hat | jobReady hat | jobPending hat | passes hat | again hat | wakes hat
  | resumeFails hat | ran hat =>
    exact hstay hat Place.noConfusion Place.noConfusion rfl rfl rfl hsame
  | admits hat _ hc | runs hat _ hc =>
    exact hstay hat Place.noConfusion Place.noConfusion rfl rfl rfl (htail hc)
  | refuses hat _ hc =>
    exact hstay hat Place.noConfusion Place.noConfusion rfl rfl rfl (hc.elim htail htail)
  | @submits id hat =>
    obtain ⟨hrec, hshut, hhost, hchannel⟩ := submitJob_frame s id
    exact hstay hat Place.noConfusion Place.noConfusion hrec hshut hhost fun c hc => hchannel ▸ hc
  | aborts | channelClosed => exact hleave rfl rfl rfl rfl rfl hsame
  | terminates _ _ hc => exact hleave rfl rfl rfl rfl rfl (htail hc)
  | shutsDown _ _ hc =>
    have hclosed : s.host = .closed := hs.shut (.inr (hc ▸ mem_cons_self))
    refine ⟨⟨fun _ => rfl, fun _ => rfl⟩, fun _ => .inl rfl, fun hidle => ?_, fun _ => hclosed⟩
    rcases hidle with h | h
    · cases hclosed.symm.trans h
    · cases hclosed.symm.trans h

theorem HostStep.standing (h : HostStep grace s s') (hs : Standing s) : Standing s' := by
  -- the host goes on, and does not come back to where nothing is asked
  have hgoes : s'.receiving = s.receiving → s'.place = s.place → s'.shut = s.shut →
      (s.status = .terminated → s'.status = .terminated) →
      ¬(s'.host = .idle ∨ s'.host = .terminates) →
      (s'.shut = true ∨ shutdown ∈ s'.channel → s'.host = .closed) → Standing s' := by
    intro hrec hplace hshut hstatus hhost hclosed
    refine ⟨?_, fun hex => ?_, fun hidle => absurd hidle hhost, hclosed⟩
    · rw [hrec, hplace]
      exact hs.receiving
    · rw [hplace] at hex
      rw [hshut]
      exact (hs.exited hex).imp id hstatus
  -- a host that has not closed asks for no shutdown
  have hopen : ∀ {host : Host} {x : Prop}, s.host = host → host ≠ .closed →
      (s.shut = true ∨ shutdown ∈ s.channel → x) := by
    rintro host x rfl hne hor
    exact absurd (hs.shut hor) hne
  have hid : s.status = .terminated → s.status = .terminated := id
  cases h with
  | calls hat =>
    refine ⟨hs.receiving, hs.exited, fun _ => hs.open_ (.inl hat), hopen hat Host.noConfusion⟩
  | terminatedBefore hat
  | loses hat | sendFails hat | receives hat | disconnected hat | waited hat | closes hat =>
    exact hgoes rfl rfl rfl hid (by simp) (hopen hat Host.noConfusion)
  | requests hat hstatus =>
    refine hgoes rfl rfl rfl (fun h => ?_) (by simp) (hopen hat Host.noConfusion)
    cases hstatus.symm.trans h
  | sends hat =>
    refine hgoes rfl rfl rfl hid (by simp) fun hor => ?_
    refine hopen hat Host.noConfusion (hor.imp id fun hm => ?_)
    simpa using hm
  | forceKills _ hat =>
    refine hgoes rfl rfl rfl (fun _ => rfl) (by simp) ?_
    rcases hat with hat | hat
    · exact hopen hat Host.noConfusion
    · exact hopen hat Host.noConfusion
  | closesRequested hat | sendsShutdown hat | shutdownFails hat =>
    exact hgoes rfl rfl rfl hid (by simp) fun _ => rfl

/-- A command that was sent ends no loop. -/
theorem mem_of_mem_send {n : ℕ} {channel : List Command} {command c : Command}
    (hcommand : command = .job n ∨ command = .sync n) (hc : c = .terminate ∨ c = .shutdown)
    (hm : c ∈ channel ++ [command]) : c ∈ channel := by
  rcases mem_append.1 hm with hm | hm
  · exact hm
  · obtain rfl := mem_singleton.1 hm
    rcases hc with rfl | rfl <;> rcases hcommand with h | h <;> cases h

theorem Others.standing (h : Others s s') (hs : Standing s) : Standing s' := by
  have hsend : ∀ {n : ℕ} {command : Command}, command = .job n ∨ command = .sync n →
      Standing
        { s with channel := s.channel ++ [command], nextCommand := s.nextCommand + 1 } := by
    intro n command hcommand
    have hmem : ∀ {c}, c = .terminate ∨ c = .shutdown → c ∈ s.channel ++ [command] →
        c ∈ s.channel := fun hc hm => mem_of_mem_send hcommand hc hm
    refine ⟨hs.receiving, hs.exited, fun hidle => ?_, fun hor => ?_⟩
    · obtain ⟨hterm, hshutdown, hfalse⟩ := hs.open_ hidle
      exact ⟨fun hm => hterm (hmem (.inl rfl) hm), fun hm => hshutdown (hmem (.inr rfl) hm), hfalse⟩
    · exact hs.shut (hor.imp id (hmem (.inr rfl)))
  cases h with
  | sendsJob => exact hsend (.inl rfl)
  | sendsSync => exact hsend (.inr rfl)
  | requests hstatus =>
    refine { hs with exited := fun hex => (hs.exited hex).imp id fun h => ?_ }
    cases hstatus.symm.trans h
  | fires id => exact { hs with }

theorem Reachable.standing (h : Reachable grace s) : Standing s := by
  induction h with
  | refl => exact standing_spawn
  | tail _ hstep ih =>
    cases hstep with
    | loop h | host h | others h => exact h.standing ih

/-! ## A request with no job at work -/

/-- The host's request is on its way, and was or will be answered. -/
def Rt.Asked (s : Rt) : Prop :=
  (s.host = .requested ∧ s.place ≠ .exited ∧ terminate ∉ s.channel) ∨
    (s.host = .awaits ∧ s.place ≠ .exited ∧ terminate ∈ s.channel) ∨
    (s.host = .awaits ∧ s.replied = true) ∨ s.host = .returned .ok

/-- No job is at work, active, queued or about to be, and none will be. -/
structure Quiet (s : Rt) : Prop where
  status : s.status ≠ .running
  active : s.active = none
  pending : s.pending = []
  place : ∀ id, s.place ≠ .admits id
  receiving : s.receiving = false ↔ s.place = .exited
  shutdown : shutdown ∉ s.channel
  asked : s.Asked

theorem Quiet.hasWork (h : Quiet s) : s.hasWork = false := by
  unfold Rt.hasWork
  rw [h.active, h.pending]
  rfl

theorem Quiet.shouldRejectNewWork (h : Quiet s) : s.shouldRejectNewWork = true := by
  unfold Rt.shouldRejectNewWork
  simpa using h.status

/-- A stage that only goes on, and takes at most a command that is refused. -/
theorem Quiet.goes (h : Quiet s) (hplace : s.place ≠ .exited) (hplace' : s'.place ≠ .exited)
    (hadmits : ∀ id, s'.place ≠ .admits id) (hstatus : s'.status = s.status)
    (hactive : s'.active = s.active) (hpending : s'.pending = s.pending)
    (hrec : s'.receiving = s.receiving) (hhost : s'.host = s.host) (hreplied : s'.replied = s.replied)
    (hsub : ∀ c ∈ s'.channel, c ∈ s.channel)
    (hterm : terminate ∈ s.channel → terminate ∈ s'.channel) : Quiet s' where
  status := hstatus ▸ h.status
  active := hactive.trans h.active
  pending := hpending.trans h.pending
  place := hadmits
  receiving := by
    rw [hrec, h.receiving]
    exact ⟨fun hex => absurd hex hplace, fun hex => absurd hex hplace'⟩
  shutdown := fun hm => h.shutdown (hsub _ hm)
  asked := by
    unfold Rt.Asked
    rw [hhost, hreplied]
    rcases h.asked with ⟨hh, -, hm⟩ | ⟨hh, -, hm⟩ | hh | hh
    · exact .inl ⟨hh, hplace', fun hm' => hm (hsub _ hm')⟩
    · exact .inr (.inl ⟨hh, hplace', hterm hm⟩)
    · exact .inr (.inr (.inl hh))
    · exact .inr (.inr (.inr hh))

theorem Loop.quiet (h : Loop s s') (hs : Quiet s) : Quiet s' := by
  have hat : ∀ {p : Place}, s.place = p → p ≠ .exited → s.place ≠ .exited := by
    rintro p rfl hne
    exact hne
  have hnot : ∀ {id : ℕ} {x : Prop}, s.active = some id → x := by
    intro id x hid
    rw [hs.active] at hid
    cases hid
  have hrejects : ∀ {x : Prop}, s.shouldRejectNewWork = false → x := by
    intro x hr
    rw [hs.shouldRejectNewWork] at hr
    cases hr
  cases h with
  | pollFails _ hid | jobReady _ hid => exact hnot hid
  | polled h | jobPending h | passes h | again h | wakes h | ran h =>
    exact hs.goes (hat h Place.noConfusion) Place.noConfusion (fun _ => Place.noConfusion) rfl rfl
      rfl rfl rfl rfl (fun _ hc => hc) id
  | aborts _ hflag =>
    rw [hs.hasWork, Bool.and_false] at hflag
    cases hflag
  | admits _ _ _ hallow | runs _ _ _ hallow => exact hrejects hallow
  | @refuses id rest h _ hc =>
    refine hs.goes (hat h Place.noConfusion) Place.noConfusion (fun _ => Place.noConfusion) rfl rfl
      rfl rfl rfl rfl ?_ ?_
    · rcases hc with hc | hc <;> exact fun c hm => hc ▸ mem_cons_of_mem _ hm
    · rcases hc with hc | hc <;>
      · intro hm
        rw [hc, mem_cons] at hm
        exact hm.resolve_left Command.noConfusion
  | submits h | resumeFails h => exact absurd h (hs.place _)
  | @terminates rest h _ hc =>
    refine ⟨Status.noConfusion, rfl, rfl, fun _ => Place.noConfusion, ⟨fun _ => rfl, fun _ => rfl⟩,
      fun hm => hs.shutdown (hc ▸ mem_cons_of_mem _ hm), ?_⟩
    -- this is the command the host waits for
    rcases hs.asked with ⟨-, -, hm⟩ | ⟨hh, -, -⟩ | ⟨hh, -⟩ | hh
    · exact absurd (hc ▸ mem_cons_self) hm
    · exact .inr (.inr (.inl ⟨hh, rfl⟩))
    · exact .inr (.inr (.inl ⟨hh, rfl⟩))
    · exact .inr (.inr (.inr hh))
  | shutsDown _ _ hc => exact absurd (hc ▸ mem_cons_self) hs.shutdown
  | channelClosed _ _ _ hclosed =>
    rcases hs.asked with ⟨hh, -⟩ | ⟨hh, -⟩ | ⟨hh, -⟩ | hh <;> cases hclosed.symm.trans hh

theorem HostStep.quiet (h : HostStep false s s') (hs : Quiet s) : Quiet s' := by
  have hnot : ∀ {host : Host} {x : Prop}, s.host = host →
      (host ≠ .requested ∧ host ≠ .awaits ∧ host ≠ .returned .ok) → x := by
    rintro host x rfl ⟨hr, ha, ho⟩
    rcases hs.asked with ⟨hh, -⟩ | ⟨hh, -⟩ | ⟨hh, -⟩ | hh
    · exact absurd hh hr
    · exact absurd hh ha
    · exact absurd hh ha
    · exact absurd hh ho
  cases h with
  | sends hat hopen =>
    have hplace : s.place ≠ .exited := fun hex => by
      rw [hs.receiving.2 hex] at hopen
      cases hopen
    refine { hs with shutdown := fun hm => hs.shutdown (by simpa using hm), asked := ?_ }
    exact .inr (.inl ⟨rfl, hplace, mem_append_right _ (mem_singleton_self _)⟩)
  | sendFails hat hopen =>
    rcases hs.asked with ⟨-, hplace, -⟩ | ⟨hh, -⟩ | ⟨hh, -⟩ | hh
    · exact absurd (hs.receiving.1 hopen) hplace
    · cases hat.symm.trans hh
    · cases hat.symm.trans hh
    · cases hat.symm.trans hh
  | receives hat => exact { hs with asked := .inr (.inr (.inr rfl)) }
  | disconnected hat hreplied hexited =>
    rcases hs.asked with ⟨hh, -⟩ | ⟨-, hplace, -⟩ | ⟨-, hh⟩ | hh
    · cases hat.symm.trans hh
    · exact absurd hexited hplace
    · cases hreplied.symm.trans hh
    · cases hat.symm.trans hh
  | forceKills hgrace => cases hgrace
  | calls hat | terminatedBefore hat | requests hat | loses hat | waited hat
  | closesRequested hat | closes hat | sendsShutdown hat | shutdownFails hat =>
    exact hnot hat (by simp)

theorem Others.quiet (h : Others s s') (hs : Quiet s) : Quiet s' := by
  have hsend : ∀ {n : ℕ} {command : Command}, command = .job n ∨ command = .sync n →
      Quiet { s with channel := s.channel ++ [command], nextCommand := s.nextCommand + 1 } := by
    intro n command hcommand
    have hmem : ∀ {c}, c = .terminate ∨ c = .shutdown → c ∈ s.channel ++ [command] →
        c ∈ s.channel := fun hc hm => mem_of_mem_send hcommand hc hm
    refine { hs with shutdown := fun hm => hs.shutdown (hmem (.inr rfl) hm), asked := ?_ }
    rcases hs.asked with ⟨hh, hp, hm⟩ | ⟨hh, hp, hm⟩ | hh | hh
    · exact .inl ⟨hh, hp, fun hm' => hm (hmem (.inl rfl) hm')⟩
    · exact .inr (.inl ⟨hh, hp, mem_append_left _ hm⟩)
    · exact .inr (.inr (.inl hh))
    · exact .inr (.inr (.inr hh))
  cases h with
  | sendsJob => exact hsend (.inl rfl)
  | sendsSync => exact hsend (.inr rfl)
  | requests hstatus => exact absurd hstatus hs.status
  | fires id => exact { hs with }

theorem Run.quiet (h : Run false s s') (hs : Quiet s) : Quiet s' := by
  induction h with
  | refl => exact hs
  | tail _ hstep ih =>
    cases hstep with
    | loop h | host h | others h => exact h.quiet ih

/-! ## The request is answered -/

/-- The dispatcher goes on by itself. -/
def LoopRun : Rt → Rt → Prop := Relation.ReflTransGen Loop

theorem LoopRun.quiet (h : LoopRun s s') (hs : Quiet s) : Quiet s' := by
  induction h with
  | refl => exact hs
  | tail _ hstep ih => exact hstep.quiet ih

theorem LoopRun.tail {s'' : Rt} (h : LoopRun s s') (hstep : Loop s' s'') : LoopRun s s'' :=
  Relation.ReflTransGen.tail h hstep

theorem LoopRun.trans {s'' : Rt} (h : LoopRun s s') (h' : LoopRun s' s'') : LoopRun s s'' :=
  Relation.ReflTransGen.trans h h'

theorem Run.tail {s'' : Rt} (h : Run grace s s') (hstep : Step grace s' s'') : Run grace s s'' :=
  Relation.ReflTransGen.tail h hstep

theorem Run.trans {s'' : Rt} (h : Run grace s s') (h' : Run grace s' s'') : Run grace s s'' :=
  Relation.ReflTransGen.trans h h'

theorem LoopRun.run (h : LoopRun s s') : Run grace s s' := by
  induction h with
  | refl => exact .refl
  | tail _ hstep ih => exact ih.tail (.loop hstep)

/-- From the top of the loop to the wait. -/
theorem Quiet.pass (h : Quiet s) (hat : s.place = .polls) :
    LoopRun s { s with place := .parks } := by
  have hchecks : LoopRun s { s with place := .checks } := .single (.polled hat)
  have hflags : LoopRun s { s with place := .flags } := hchecks.tail (.jobPending rfl)
  refine hflags.tail (.passes rfl ?_)
  have hwork := h.hasWork
  unfold Rt.hasWork at hwork ⊢
  simp only [hwork, Bool.and_false]

/-- What stages that wait leave alone. -/
def Alike (s s' : Rt) : Prop :=
  s'.channel = s.channel ∧ s'.active = s.active ∧ s'.pending = s.pending ∧
    s'.status = s.status ∧ s'.host = s.host

/-- **The loop may come to its flags**, from wherever it is, with nothing done
to jobs. -/
theorem comes_to_flags (hplace : s.place ≠ .exited) (hadmits : ∀ id, s.place ≠ .admits id) :
    ∃ s', LoopRun s s' ∧ s'.place = .flags ∧ Alike s s' := by
  have hsame : Alike s s := ⟨rfl, rfl, rfl, rfl, rfl⟩
  have hpolls : ∀ {s1 : Rt}, LoopRun s s1 → s1.place = .polls → Alike s s1 →
      ∃ s', LoopRun s s' ∧ s'.place = .flags ∧ Alike s s' := by
    intro s1 hrun hat hsame
    have hchecks : LoopRun s { s1 with place := .checks } := hrun.tail (.polled hat)
    exact ⟨_, hchecks.tail (.jobPending rfl), rfl, hsame⟩
  cases hat : s.place with
  | polls => exact hpolls .refl hat hsame
  | checks => exact ⟨_, .single (.jobPending hat), rfl, hsame⟩
  | flags => exact ⟨s, .refl, hat, hsame⟩
  | parks =>
    cases hjust : s.justActivated with
    | false => exact hpolls (.single (.wakes hat hjust)) rfl hsame
    | true => exact hpolls (.single (.again hat hjust)) rfl hsame
  | admits id => exact absurd hat (hadmits id)
  | runs id => exact hpolls (.single (.ran hat)) rfl hsame
  | exited => exact absurd hat hplace

/-- The loop goes on to where it takes a command, with one more turn if a job
was just activated. -/
theorem Quiet.parks (h : Quiet s) (hplace : s.place ≠ .exited) :
    ∃ s', LoopRun s s' ∧ s'.place = .parks ∧ s'.justActivated = false ∧
      s'.channel = s.channel ∧ s'.host = s.host := by
  obtain ⟨s1, hrun, hat, hchannel, -, -, -, hhost⟩ := comes_to_flags hplace h.place
  have hflag : (s1.shouldRejectNewWork && s1.hasWork) = false := by
    rw [(hrun.quiet h).hasWork, Bool.and_false]
  have hpasses := hrun.tail (.passes hat hflag)
  cases hjust : s1.justActivated with
  | false => exact ⟨_, hpasses, rfl, hjust, hchannel, hhost⟩
  | true =>
    have hagain := hpasses.tail (.again rfl hjust)
    exact ⟨_, hagain.trans ((hagain.quiet h).pass rfl), rfl, rfl, hchannel, hhost⟩

/-- **A command that waits is taken**, since those before it are refused. -/
theorem Quiet.replies (before : List Command) {after : List Command} (h : Quiet s)
    (hhost : s.host = .awaits) (hplace : s.place ≠ .exited)
    (hchannel : s.channel = before ++ .terminate :: after) :
    ∃ s', LoopRun s s' ∧ s'.host = .awaits ∧ s'.replied = true := by
  induction before generalizing s with
  | nil =>
    obtain ⟨s1, hrun, hat, hjust, hch, hho⟩ := h.parks hplace
    have hterm := hrun.tail (.terminates hat hjust (hch.trans hchannel))
    exact ⟨_, hterm, hho.trans hhost, rfl⟩
  | cons c before ih =>
    obtain ⟨s1, hrun, hat, hjust, hch, hho⟩ := h.parks hplace
    rw [cons_append] at hchannel
    cases c with
    | terminate =>
      have hterm := hrun.tail (.terminates hat hjust (hch.trans hchannel))
      exact ⟨_, hterm, hho.trans hhost, rfl⟩
    | shutdown => exact absurd (hchannel ▸ mem_cons_self) h.shutdown
    | job id =>
      have hnext := hrun.tail (.refuses hat hjust (.inl (hch.trans hchannel)))
      obtain ⟨s', hrun', hdone⟩ := ih (hnext.quiet h) (hho.trans hhost) Place.noConfusion rfl
      exact ⟨s', hnext.trans hrun', hdone⟩
    | sync id =>
      have hnext := hrun.tail (.refuses hat hjust (.inr (hch.trans hchannel)))
      obtain ⟨s', hrun', hdone⟩ := ih (hnext.quiet h) (hho.trans hhost) Place.noConfusion rfl
      exact ⟨s', hnext.trans hrun', hdone⟩

/-- **The request comes to a success.** -/
theorem Quiet.returns (h : Quiet s) : ∃ s', Run false s s' ∧ s'.host = .returned .ok := by
  have hreceives : ∀ {s1 : Rt}, Run false s s1 → s1.host = .awaits → s1.replied = true →
      ∃ s', Run false s s' ∧ s'.host = .returned .ok := by
    intro s1 hrun hhost hreplied
    exact ⟨_, hrun.tail (.host (.receives hhost hreplied)), rfl⟩
  have hsent : ∀ {s1 : Rt}, Run false s s1 → s1.host = .awaits → s1.place ≠ .exited →
      terminate ∈ s1.channel → ∃ s', Run false s s' ∧ s'.host = .returned .ok := by
    intro s1 hrun hhost hplace hmem
    obtain ⟨before, after, hchannel⟩ := append_of_mem hmem
    obtain ⟨s2, hrun2, hhost2, hreplied⟩ := (hrun.quiet h).replies before hhost hplace hchannel
    exact hreceives (hrun.trans hrun2.run) hhost2 hreplied
  rcases h.asked with ⟨hhost, hplace, -⟩ | ⟨hhost, hplace, hmem⟩ | ⟨hhost, hreplied⟩ | hhost
  · have hopen : s.receiving = true := by
      by_contra hne
      exact hplace (h.receiving.1 (by simpa using hne))
    exact hsent (.single (.host (.sends hhost hopen))) rfl hplace
      (mem_append_right _ (mem_singleton_self _))
  · exact hsent .refl hhost hplace hmem
  · exact hreceives .refl hhost hreplied
  · exact ⟨s, .refl, hhost⟩

/-! ## A request with a job at work -/

/-- **With a job at work the loop may leave by the flag**, and drop the channel. -/
theorem leaves_by_flag (hwork : s.hasWork = true) (hstatus : s.status ≠ .running)
    (hplace : s.place ≠ .exited) (hadmits : ∀ id, s.place ≠ .admits id) :
    ∃ s', LoopRun s s' ∧ s'.receiving = false ∧ s'.host = s.host := by
  obtain ⟨s1, hrun, hat, -, hactive, hpending, hst, hhost⟩ := comes_to_flags hplace hadmits
  refine ⟨_, hrun.tail (.aborts hat ?_), rfl, hhost⟩
  unfold Rt.hasWork at hwork ⊢
  unfold Rt.shouldRejectNewWork
  rw [hactive, hpending, hwork, hst]
  simpa using hstatus

/-- A job is active, queued, or admitted and about to be one of them. -/
def Rt.AtJob (s : Rt) : Prop := s.active ≠ none ∨ s.pending ≠ [] ∨ ∃ id, s.place = .admits id

theorem hasWork_of_atJob (h : s.active ≠ none ∨ s.pending ≠ []) : s.hasWork = true := by
  unfold Rt.hasWork
  rcases h with h | h
  · rw [Option.isSome_iff_ne_none.2 h, Bool.true_or]
  · have : s.pending.isEmpty = false := by simpa using h
    rw [this, Bool.not_false, Bool.or_true]

theorem Rt.AtJob.leaves (h : s.AtJob) (hstatus : s.status ≠ .running) (hplace : s.place ≠ .exited) :
    ∃ s', LoopRun s s' ∧ s'.receiving = false ∧ s'.host = s.host := by
  by_cases hadmits : ∃ id, s.place = .admits id
  · -- the job is submitted first
    obtain ⟨id, hat⟩ := hadmits
    have hsubmit : LoopRun s { s.submitJob id with place := .polls } := .single (.submits hat)
    obtain ⟨-, -, hhost, -⟩ := submitJob_frame s id
    have hst : (s.submitJob id).status = s.status := by
      unfold Rt.submitJob
      split <;> rfl
    have hwork : (s.submitJob id).active ≠ none ∨ (s.submitJob id).pending ≠ [] := by
      unfold Rt.submitJob
      split
      · exact .inl (Option.some_ne_none id)
      · exact .inr (by simp)
    obtain ⟨s', hrun, hrec, hho⟩ := leaves_by_flag
      (s := { s.submitJob id with place := .polls }) (hasWork_of_atJob hwork)
      (fun hr => hstatus (hst.symm.trans hr)) Place.noConfusion fun _ => Place.noConfusion
    exact ⟨s', hsubmit.trans hrun, hrec, hho.trans hhost⟩
  · refine leaves_by_flag (hasWork_of_atJob ?_) hstatus hplace fun id hat => hadmits ⟨id, hat⟩
    rcases h with h | h | h
    · exact .inl h
    · exact .inr h
    · exact absurd h hadmits

end

/-! ## The protocol -/

/-- **The call comes to a success**, whatever happens: it never returns anything
else, and from every state there is a way on to its success. -/
def Succeeds (grace : Bool) (s : Rt) : Prop :=
  ∀ s', Run grace s s' → (∀ result, s'.host = .returned result → result = .ok) ∧
    ∃ s'', Run grace s' s'' ∧ s''.host = .returned .ok

/-- The host makes its request. -/
def Rt.request (s : Rt) : Rt := { s with status := .requested, host := .requested }

/-- **Every job that was admitted is answered**, once, and with the termination
if it came to no outcome of its own and its deadline has not passed. -/
def Answered (s : Rt) : Prop :=
  ∀ id ∈ s.admitted, (s.answers.map Prod.fst).count id = 1 ∧
    (id ∉ s.completed →
      (id, .terminated) ∈ s.answers ∨ ((id, .timedOut) ∈ s.answers ∧ id ∈ s.fired))

theorem Ledger.answered {s : Rt} (h : Ledger s) (hexited : s.place = .exited)
    (hshut : s.shut = false) : Answered s := by
  intro id hid
  have hnone := h.exited hexited hshut
  obtain ⟨answer, hne, hmem⟩ : ∃ answer ≠ .refused, (id, answer) ∈ s.answers := by
    rcases h.kept hshut id hid with hwork | hans
    · rw [hnone] at hwork
      exact (not_mem_nil hwork).elim
    · exact hans
  constructor
  · have hpos : 0 < (s.answers.map Prod.fst).count id :=
      count_pos_iff.2 (mem_map.2 ⟨_, hmem, rfl⟩)
    have hle := h.nodup id
    unfold Rt.held at hle
    rw [count_append] at hle
    omega
  · intro hcompleted
    cases answer with
    | result => exact absurd (h.results hmem) hcompleted
    | refused => exact absurd rfl hne
    | timedOut => exact .inr ⟨hmem, h.timedOut hmem⟩
    | terminated => exact .inl hmem

/-- A request with no job at work. -/
theorem quiet_request {s : Rt} (h : Standing s) (hhost : s.host = .terminates)
    (hstatus : s.status = .running) (hjob : ¬ s.AtJob) : Quiet s.request := by
  obtain ⟨hterm, hshutdown, hshut⟩ := h.open_ (.inr hhost)
  have hplace : s.place ≠ .exited := fun hex => by
    rcases h.exited hex with hs | hs
    · cases hshut.symm.trans hs
    · cases hstatus.symm.trans hs
  refine ⟨Status.noConfusion, ?_, ?_, fun id hat => hjob (.inr (.inr ⟨id, hat⟩)), h.receiving,
    hshutdown, .inl ⟨rfl, hplace, hterm⟩⟩
  · by_contra hne
    exact hjob (.inl hne)
  · by_contra hne
    exact hjob (.inr (.inl hne))

theorem Quiet.succeeds {s : Rt} (h : Quiet s) : Succeeds false s := by
  intro s' hrun
  have hs' := Run.quiet hrun h
  refine ⟨fun result hresult => ?_, hs'.returns⟩
  rcases hs'.asked with ⟨hh, -⟩ | ⟨hh, -⟩ | ⟨hh, -⟩ | hh
  · cases hresult.symm.trans hh
  · cases hresult.symm.trans hh
  · cases hresult.symm.trans hh
  · cases hresult.symm.trans hh
    rfl

/-- **Termination.** Once the loop is left, every admitted job has been answered;
and a host that requests a termination of a live runtime comes to a success
whatever happens exactly when no job is at work at its request (and no grace is
set that lets it give up). -/
theorem terminate_protocol (grace : Bool) (s : Rt) (h : Reachable grace s) :
    (s.place = .exited → s.host ≠ .closed → Answered s) ∧
    (s.host = .terminates → s.status = .running →
      (Succeeds grace s.request ↔ grace = false ∧ ¬ s.AtJob)) := by
  have hstand := h.standing
  refine ⟨fun hexited hhost => ?_, fun hhost hstatus => ⟨fun hsucceeds => ?_, ?_⟩⟩
  · refine h.ledger.answered hexited ?_
    by_contra hshut
    exact hhost (hstand.shut (.inl (by simpa using hshut)))
  · obtain ⟨-, -, hshut⟩ := hstand.open_ (.inr hhost)
    have hplace : s.place ≠ .exited := fun hex => by
      rcases hstand.exited hex with hs | hs
      · cases hshut.symm.trans hs
      · cases hstatus.symm.trans hs
    constructor
    · by_contra hgrace
      have hopen : s.receiving = true := by
        by_contra hne
        exact hplace (hstand.receiving.1 (by simpa using hne))
      have hsent : Run grace s.request _ := .single (.host (.sends rfl hopen))
      have hkilled := hsent.tail (.host (.forceKills (by simpa using hgrace) (.inl rfl)))
      cases (hsucceeds _ hkilled).1 .forceKilled rfl
    · intro hjob
      -- the loop leaves by the flag before the command is sent
      obtain ⟨s', hrun, hrec, hho⟩ := Rt.AtJob.leaves (s := s.request) hjob
        Status.noConfusion hplace
      have hleft : Run grace s.request s' := hrun.run
      have hfailed := hleft.tail (.host (.sendFails hho hrec))
      cases (hsucceeds _ hfailed).1 .sendFailed rfl
  · rintro ⟨rfl, hjob⟩
    exact (quiet_request hstand hhost hstatus hjob).succeeds

/-- A job is active, and the host calls `terminate`. -/
def busyState : Rt :=
  { Rt.spawn with
    active := some 0, justActivated := true, admitted := [0], nextCommand := 1
    host := .terminates }

theorem reachable_busyState : Reachable false busyState := by
  have hsent : Reachable false _ := .single (.others (.sendsJob rfl))
  have hpolled := hsent.tail (.loop (.polled rfl))
  have hchecked := hpolled.tail (.loop (.jobPending rfl))
  have hpassed := hchecked.tail (.loop (.passes rfl rfl))
  have hadmitted := hpassed.tail (.loop (.admits rfl rfl rfl rfl))
  have hsubmitted := hadmitted.tail (.loop (.submits rfl))
  exact hsubmitted.tail (.host (.calls rfl))

/-- The command is sent, and the loop leaves by the flag. -/
def leftState : Rt :=
  { busyState.request.cancelAllJobs.finalizeTermination.leave with
    channel := [.terminate], host := .awaits }

theorem run_leftState : Run false busyState.request leftState := by
  have hsent : Run false busyState.request _ := .single (.host (.sends rfl rfl))
  have hpolled := hsent.tail (.loop (.polled rfl))
  have hchecked := hpolled.tail (.loop (.jobPending rfl))
  exact hchecked.tail (.loop (.aborts rfl rfl))

/-- An idle runtime is terminated, and a busy one answers its job. -/
theorem terminate_protocol_runs :
    Succeeds false ({ Rt.spawn with host := .terminates } : Rt).request ∧
      leftState.admitted = [0] ∧ Answered leftState := by
  have hcalled : Reachable false { Rt.spawn with host := .terminates } :=
    .single (.host (.calls rfl))
  have hleft : Reachable false leftState :=
    (reachable_busyState.tail (.host (.requests rfl rfl))).trans run_leftState
  refine ⟨((terminate_protocol false _ hcalled).2 rfl rfl).2 ⟨rfl, ?_⟩, rfl,
    (terminate_protocol false _ hleft).1 rfl Host.noConfusion⟩
  rintro (h | h | ⟨id, h⟩)
  · exact h rfl
  · exact h rfl
  · cases h

/-- **A live runtime is terminated, and the host is told that it was not**: the
loop leaves by the flag and drops the command that is in its channel. -/
theorem succeeds_fails :
    ∃ s s', Reachable false s ∧ s.host = .terminates ∧ s.status = .running ∧
      Run false s.request s' ∧ s'.status = .terminated ∧
      s'.host = .returned .receiveFailed :=
  ⟨busyState, _, reachable_busyState, rfl, rfl,
    run_leftState.tail (.host (.disconnected rfl rfl rfl)), rfl, rfl⟩

end Pydeno.Runtime.Dispatch
