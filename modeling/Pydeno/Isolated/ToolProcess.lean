import Pydeno.Isolated.Model.ToolProcess
import Pydeno.Wire.Model.Decoder

/-!
# Every call to a tool process is completed once

Every id handed out is in one place (`Ok.nodup`): pending, taken by a thread
that will complete it, or completed. What is taken keeps it so (`perm_take`), and a dead
child has nothing pending.
-/

namespace Pydeno.Isolated.ToolProcess.Child

open List

/-- Where the calls are. -/
def ids (c : Child) : List ℕ := c.pending ++ (c.taken ++ c.completed).map Prod.fst

/-- **What holds of a child.** -/
structure Ok (c : Child) : Prop where
  nodup : c.ids.Nodup
  below : ∀ cid ∈ c.ids, cid < c.nextCid
  dead : c.dead = true → c.pending = []
  sending : ∀ call ∈ c.sending, call.1 ∈ c.ids
  returned : ∀ cid ∈ c.returned, cid ∈ c.ids

variable {cap : ℕ} {c c' : Child}

/-- A step that moves calls from one place to the next. -/
theorem Ok.of_perm (h : Ok c) (hids : c'.ids ~ c.ids) (hnext : c'.nextCid = c.nextCid)
    (hdead : c'.dead = true → c'.pending = []) (hsending : c'.sending ⊆ c.sending)
    (hreturned : ∀ cid ∈ c'.returned, cid ∈ c.returned ∨ ∃ n, (cid, n) ∈ c.sending) :
    Ok c' where
  nodup := hids.nodup_iff.mpr h.nodup
  below cid hcid := hnext ▸ h.below cid (hids.mem_iff.mp hcid)
  dead := hdead
  sending call hcall := hids.mem_iff.mpr (h.sending call (hsending hcall))
  returned cid hcid := by
    rw [hids.mem_iff]
    rcases hreturned cid hcid with hold | ⟨n, hn⟩
    · exact h.returned cid hold
    · exact h.sending (cid, n) hn

/-- What is taken out of `pending` is on the way. -/
theorem perm_take (c : Child) (these : ℕ → Bool) (outcome : Outcome) :
    (c.take these outcome).ids ~ c.ids := by
  have hmap : ((c.pending.filter these).map (·, outcome)).map Prod.fst = c.pending.filter these := by
    rw [map_map]
    exact map_id _
  simp only [ids, take, map_append, hmap, append_assoc]
  refine ((perm_append_comm_assoc _ _ _).append_left _).trans ?_
  rw [← append_assoc]
  exact (perm_append_comm.trans (filter_append_perm these c.pending)).append_right _

/-- A call that is registered gets an id that is nowhere yet. -/
theorem Ok.submit {payload : Option ℕ} (h : Ok c) (hsubmit : c.submit cap payload = some c') :
    Ok c' := by
  obtain ⟨hnodup, hbelow, hdead, hsending, hreturned⟩ := h
  unfold Child.submit at hsubmit
  split at hsubmit
  · cases hsubmit
  next payload =>
    split_ifs at hsubmit with hover hgone
    · obtain rfl := Option.some.inj hsubmit
      exact ⟨hnodup, hbelow, hdead, hsending, hreturned⟩
    · obtain rfl := Option.some.inj hsubmit
      have hnew : c.nextCid ∉ c.ids := fun hin => lt_irrefl _ (hbelow _ hin)
      have hids : ids { c with
          nextCid := c.nextCid + 1
          pending := c.pending ++ [c.nextCid]
          sending := c.sending ++ [(c.nextCid, payload)] } ~ c.nextCid :: c.ids := by
        rw [ids, append_assoc]
        exact perm_middle
      simp only [Bool.or_eq_true, not_or] at hgone
      refine ⟨hids.nodup_iff.mpr (nodup_cons.mpr ⟨hnew, hnodup⟩), fun cid hcid => ?_,
        fun hd => absurd hd hgone.1, ?_, ?_⟩
      · rcases mem_cons.mp (hids.mem_iff.mp hcid) with rfl | hold
        · exact Nat.lt_succ_self _
        · exact Nat.lt_succ_of_lt (hbelow cid hold)
      · intro call hcall
        rw [hids.mem_iff, mem_cons]
        rcases mem_append.mp hcall with hold | hlast
        · exact .inr (hsending call hold)
        · exact .inl (congrArg Prod.fst (mem_singleton.mp hlast))
      · exact fun cid hcid => hids.mem_iff.mpr (mem_cons_of_mem _ (hreturned cid hcid))

/-- The end of a submit. -/
theorem Ok.sent {call : ℕ × ℕ} (h : Ok c) (hcall : call ∈ c.sending) :
    Ok (c.sent call) := by
  refine h.of_perm (.refl _) rfl h.dead (erase_subset ..) fun cid hcid => ?_
  rcases mem_append.mp hcid with hold | hnew
  · exact .inl hold
  · exact .inr ⟨call.2, mem_singleton.mp hnew ▸ hcall⟩

theorem Ok.kill (h : Ok c) : Ok c.kill :=
  h.of_perm (.refl _) rfl h.dead (Subset.refl _) fun _ => .inl

theorem Step.ok (hs : Step cap c c') (h : Ok c) : Ok c' := by
  cases hs with
  | submits hsubmit => exact h.submit hsubmit
  | sends hcall => exact h.sent hcall
  | sendFails hcall => exact h.kill.sent hcall
  | onFrame hlive =>
    exact h.of_perm (perm_take ..) rfl (fun hd => nomatch hlive.symm.trans hd) (Subset.refl _)
      fun _ => .inl
  | expire =>
    refine h.of_perm (perm_take ..) rfl (fun hd => ?_) (Subset.refl _) fun _ => .inl
    rw [take, h.dead hd]
    rfl
  | kills => exact h.kill
  | finish =>
    refine h.of_perm (perm_take ..) rfl (fun _ => ?_) (Subset.refl _) fun _ => .inl
    exact filter_false _
  | @completes x hx =>
    refine h.of_perm ?_ rfl h.dead (Subset.refl _) fun _ => .inl
    refine Perm.append_left _ (Perm.map _ ?_)
    rw [← append_assoc]
    exact (perm_append_singleton x _).trans ((perm_cons_erase hx).symm.append_right _)

theorem ok_of_reachable (h : Reachable cap c) : Ok c := by
  induction h with
  | refl => exact ⟨nodup_nil, nofun, nofun, nofun, nofun⟩
  | tail _ hs ih => exact hs.ok ih

/-- A submit raises, and leaves the child as it is, for a frame over the cap with id 0. -/
theorem submit_eq_none {n : ℕ} : c.submit cap (some n) = none ↔ cap < frameSize n 0 := by
  rw [submit]
  split_ifs with hover hgone
  · exact iff_of_true rfl hover
  · exact iff_of_false nofun hover
  · exact iff_of_false nofun hover

/-- **The calls of a tool process.** In every run, a call that a submit returned is in one
place once, so that it is completed at most once; a dead child has nothing pending, so
that each is completed when the threads have completed what they took. A submit whose
arguments cannot be sent raises, exactly if a frame over the cap with its own id is over
it with id 0. -/
theorem calls_completed (h : Reachable cap c) :
    (∀ cid ∈ c.returned, c.ids.count cid = 1) ∧ (c.dead = true → c.pending = [] ∧
      (c.taken = [] → ∀ cid ∈ c.returned, (c.completed.map Prod.fst).count cid = 1)) ∧
    c.submit cap none = none ∧ ∀ n,
      (cap < frameSize n c.nextCid → c.submit cap (some n) = none) ↔
        (frameSize n 0 ≤ cap → frameSize n c.nextCid ≤ cap) := by
  have hc := ok_of_reachable h
  have honce : ∀ cid ∈ c.returned, c.ids.count cid = 1 := fun cid hcid =>
    count_eq_one_of_mem hc.nodup (hc.returned cid hcid)
  refine ⟨honce, fun hd => ⟨hc.dead hd, fun htaken cid hcid => ?_⟩, rfl, fun n => ?_⟩
  · have hone := honce cid hcid
    rwa [ids, hc.dead hd, htaken] at hone
  · rw [submit_eq_none, ← not_imp_not, not_lt, not_lt]

/-- A call that is answered by its frame. -/
theorem calls_completed_answered : ∃ c : Child, Reachable Wire.MAX_FRAME_BYTES c ∧
    c.completed = [(1, .frame)] ∧ c.ids.count 1 = 1 := by
  have hstart : Reachable Wire.MAX_FRAME_BYTES {} := .refl
  have hsubmit : submit Wire.MAX_FRAME_BYTES {} (some 16777215) = some _ := rfl
  have hsent := (hstart.tail (.submits hsubmit)).tail (.sends (mem_singleton_self _) (by decide))
  have hframe := hsent.tail (@Step.onFrame _ _ 1 rfl)
  have hdone := hframe.tail (.completes (mem_singleton_self (1, Outcome.frame)))
  exact ⟨_, hdone, rfl, (calls_completed hdone).1 1 (mem_singleton_self 1)⟩

/-- Nine calls are in flight when a submit's arguments fill the cap: the frame passes the
check with id 0, the encoder refuses it with id 10, and the child is killed. -/
theorem unsendable_kills : ∃ c c' : Child, Reachable Wire.MAX_FRAME_BYTES c ∧ c.killed = false ∧
    1 ∈ c.pending ∧ Wire.MAX_FRAME_BYTES < frameSize 16777215 c.nextCid ∧
    c.submit Wire.MAX_FRAME_BYTES (some 16777215) = some c' ∧
    Reachable Wire.MAX_FRAME_BYTES (c'.kill.sent (c.nextCid, 16777215)) := by
  have hnext {c c' : Child} {n : ℕ} (h : Reachable Wire.MAX_FRAME_BYTES c)
      (hs : c.submit Wire.MAX_FRAME_BYTES (some n) = some c') : Reachable Wire.MAX_FRAME_BYTES c' :=
    h.tail (.submits hs)
  have h3 := hnext (n := 0) (hnext (n := 0) (hnext (n := 0) .refl rfl) rfl) rfl
  have h6 := hnext (n := 0) (hnext (n := 0) (hnext (n := 0) h3 rfl) rfl) rfl
  have h9 := hnext (n := 0) (hnext (n := 0) (hnext (n := 0) h6 rfl) rfl) rfl
  have h10 := hnext (n := 16777215) h9 rfl
  exact ⟨_, _, h9, rfl, mem_cons_self, by decide, rfl, h10.tail (.sendFails (by decide))⟩

end Pydeno.Isolated.ToolProcess.Child
