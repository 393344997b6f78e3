import Pydeno.Runtime.Model.Termination
/-!
# Reasons are stable

The first request decides the reason. It is made with the lock held, and from
then on the status is not running, so that no other request is first and nothing
is cleared (`Kept`). A call that is about to clear the reason has seen no request
while it held the lock, so nothing was granted (`Pending`).
-/

namespace Pydeno.Runtime.Termination

open Controller Call

open Dispatch (Status)
open Interleaving (Sys)

/-- The order in which a controller goes through its statuses. -/
def rank : Status → ℕ
  | .running => 0
  | .requested => 1
  | .terminated => 2

/-- The call holds the lock. -/
def Call.holds : Call → Bool
  | .requesting _ | .requested _ _ | .clearing | .cleared _ => true
  | _ => false

/-- **What holds of the controller.** -/
structure Kept (s : Controller) : Prop where
  reason : ∀ r ∈ s.granted, s.reason = some r
  status : s.granted ≠ [] → s.status ≠ .running
  reads : ∀ read ∈ s.reads, ∀ r ∈ read.before, read.value = some r

/-- **What holds of a call.** -/
structure Pending (s : Controller) (c : Call) : Prop where
  locked : c.holds = true → s.locked = true
  first : ∀ r, c = .requested r true → s.granted = [] ∧ s.status ≠ .running
  clears : c = .cleared false → s.granted = []
  before : ∀ before, c = .reason before → before ⊆ s.granted

variable {s s' : Controller} {c c' d : Call} {sys sys' : Sys Controller Call}

theorem exchange_status (s : Controller) : s.exchange.1.status ≠ .running := by
  unfold exchange
  split
  · simp
  · assumption

theorem exchange_frame (s : Controller) :
    s.exchange.1.reason = s.reason ∧ s.exchange.1.locked = s.locked ∧
      s.exchange.1.granted = s.granted ∧ s.exchange.1.reads = s.reads := by
  unfold exchange
  split <;> exact ⟨rfl, rfl, rfl, rfl⟩

/-- Only a running controller is requested first. -/
theorem running_of_exchange (h : s.exchange.2 = true) : s.status = .running := by
  unfold exchange at h
  split at h
  · assumption
  · cases h

/-- A call that holds no lock and reads nothing. -/
theorem pending_ended : Pending s .ended := ⟨by simp [holds], by simp, by simp, by simp⟩

theorem Kept.of_status (h : Kept s) (hreason : s'.reason = s.reason)
    (hgranted : s'.granted = s.granted) (hreads : s'.reads = s.reads)
    (hstatus : s.status ≠ .running → s'.status ≠ .running) : Kept s' where
  reason := by rw [hgranted, hreason]; exact h.reason
  status := by rw [hgranted]; exact fun hne => hstatus (h.status hne)
  reads := by rw [hreads]; exact h.reads

/-- **A step keeps what holds of the controller and of its call.** -/
theorem Act.keeps (hs : Act s c s' c') (h : Kept s) (hc : Pending s c) :
    Kept s' ∧ Pending s' c' := by
  obtain ⟨hreason, hlocked, hgranted, hreads⟩ := exchange_frame s
  cases hs with
  | requests =>
    exact ⟨h.of_status hreason hgranted hreads fun _ => exchange_status s, pending_ended⟩
  | locksRequest | locksClear =>
    exact ⟨{ h with }, by simp [holds], by simp, by simp, by simp⟩
  | exchanges =>
    refine ⟨h.of_status hreason hgranted hreads fun _ => exchange_status s,
      fun _ => hlocked.trans (hc.locked rfl), ?_, by simp, by simp⟩
    intro r heq
    simp only [requested.injEq] at heq
    refine ⟨hgranted.trans ?_, exchange_status s⟩
    by_contra hne
    exact h.status hne (running_of_exchange heq.2)
  | grants =>
    obtain ⟨hnone, hstatus⟩ := hc.first _ rfl
    refine ⟨⟨?_, fun _ => hstatus, h.reads⟩, pending_ended⟩
    simp [hnone]
  | repeats | marks => exact ⟨h.of_status rfl rfl rfl (by simp), pending_ended⟩
  | ensures =>
    refine ⟨⟨fun r hr => ?_, h.status, h.reads⟩, pending_ended⟩
    rw [h.reason r hr]
    rfl
  | checks =>
    refine ⟨h, fun _ => hc.locked rfl, by simp, fun heq => ?_, by simp⟩
    simp only [cleared.injEq, isRequested, decide_eq_false_iff_not, not_not] at heq
    by_contra hne
    exact h.status hne heq
  | @clears isRequested =>
    refine ⟨⟨fun r hr => ?_, h.status, h.reads⟩, pending_ended⟩
    cases isRequested with
    | true => exact h.reason r hr
    | false => simp [hc.clears rfl] at hr
  | reads =>
    refine ⟨⟨h.reason, h.status, fun read hread => ?_⟩, pending_ended⟩
    rcases List.mem_append.mp hread with hread | hread
    · exact h.reads read hread
    · obtain rfl := List.mem_singleton.mp hread
      exact fun r hr => h.reason r (hc.before _ rfl hr)

/-- What a step does to the status and to what was granted. -/
theorem Act.grows (hs : Act s c s' c') : rank s.status ≤ rank s'.status ∧ s.granted ⊆ s'.granted ∧
      (c.holds = false → s'.granted = s.granted ∧ (s.locked = true → s'.locked = true)) := by
  have hrank : rank s.status ≤ rank s.exchange.1.status := by
    unfold exchange
    split
    · simp [rank, *]
    · exact le_rfl
  obtain ⟨-, hlocked, hgranted, -⟩ := exchange_frame s
  cases hs with
  | requests | exchanges =>
    exact ⟨hrank, hgranted ▸ fun _ hr => hr, fun _ => ⟨hgranted, hlocked.trans⟩⟩
  | grants => exact ⟨le_rfl, List.subset_append_left _ _, by simp [holds]⟩
  | marks =>
    refine ⟨?_, fun _ hr => hr, fun _ => ⟨rfl, id⟩⟩
    change rank s.status ≤ 2
    cases s.status <;> decide
  | _ => exact ⟨le_rfl, fun _ hr => hr, by simp [holds]⟩

/-- A lock is taken when it is free. -/
theorem Act.takes (hs : Act s c s' c') (h : c'.holds = true) : c.holds = true ∨ s.locked = false := by
  cases hs with
  | locksRequest hfree | locksClear hfree => exact .inr hfree
  | exchanges | checks => exact .inl rfl
  | _ => cases h

/-- **A step keeps what holds of the other calls**, and they do not share the lock. -/
theorem Act.others (hs : Act s c s' c') (hd : Pending s d)
    (hapart : ¬(c.holds = true ∧ d.holds = true)) :
    Pending s' d ∧ ¬(c'.holds = true ∧ d.holds = true) := by
  obtain ⟨hrank, hsub, hfree⟩ := hs.grows
  have hfree' : d.holds = true → s'.granted = s.granted ∧ s'.locked = true := fun hholds => by
    have hnot : c.holds = false := by
      by_contra hne
      exact hapart ⟨by simpa using hne, hholds⟩
    exact ⟨(hfree hnot).1, (hfree hnot).2 (hd.locked hholds)⟩
  refine ⟨⟨fun hholds => (hfree' hholds).2, ?_, ?_, ?_⟩, ?_⟩
  · rintro r rfl
    obtain ⟨hnone, hstatus⟩ := hd.first r rfl
    refine ⟨(hfree' rfl).1.trans hnone, fun hrunning => hstatus ?_⟩
    rw [hrunning] at hrank
    cases hs : s.status with
    | running => rfl
    | requested | terminated => simp [hs, rank] at hrank
  · rintro rfl
    exact (hfree' rfl).1.trans (hd.clears rfl)
  · exact fun before heq => List.Subset.trans (hd.before before heq) hsub
  · rintro ⟨hc', hholds⟩
    rcases hs.takes hc' with hc | hunlocked
    · exact hapart ⟨hc, hholds⟩
    · exact absurd (hd.locked hholds) (by simp [hunlocked])

theorem Join.pending (hj : Join s c) : Pending s c := by
  cases hj with
  | reason =>
    refine ⟨by simp [holds], by simp, by simp, fun before heq => ?_⟩
    obtain rfl := reason.inj heq
    exact fun _ hr => hr
  | _ => exact ⟨by simp [holds], by simp, by simp, by simp⟩

theorem kept_of_reachable (h : Reachable sys) : Kept sys.shared := by
  refine (Interleaving.reachable_apart (I := Kept) (P := Pending)
    (R := fun c d => ¬(c.holds = true ∧ d.holds = true)) ?_ ?_ Act.keeps ?_ ?_ ?_ ?_ ?_ h).1
  · exact fun hcd hdc => hcd hdc.symm
  · exact ⟨by simp [new], by simp [new], by simp [new]⟩
  · exact fun hs _ _ hd hR => hs.others hd hR
  · exact fun hj _ => hj.pending
  · rintro s c d hj _ _ ⟨-, hholds⟩
    cases hj <;> cases hholds
  · exact fun h => h.elim
  · exact fun h => h.elim

theorem rank_le_of_run (h : Run sys sys') : rank sys.shared.status ≤ rank sys'.shared.status := by
  induction h with
  | refl => exact le_rfl
  | tail _ hmove ih =>
    cases hmove with
    | act _ _ hs => exact ih.trans hs.grows.1
    | join => exact ih
    | env _ hfalse => exact hfalse.elim

/-- **Reasons are stable.** The status only moves forward, and once a request with
a reason has returned true, every read that is made later returns that reason. -/
theorem reasons_stable {sys : Sys Controller Call} (h : Reachable sys) :
    (∀ sys', Run sys sys' → rank sys.shared.status ≤ rank sys'.shared.status) ∧
      ∀ read ∈ sys.shared.reads, ∀ r ∈ read.before, read.value = some r :=
  ⟨fun _ hrun => rank_le_of_run hrun, (kept_of_reachable h).reads⟩

/-- A deadline leaves its reason, a request replaces it, and the reason is read
after an attempt to clear it. -/
theorem reasons_stable_requested : ∃ sys : Sys Controller Call, Reachable sys ∧
    sys.shared.reads = [⟨[[1]], some [1]⟩] ∧
    ∀ read ∈ sys.shared.reads, ∀ r ∈ read.before, read.value = some r := by
  have hnew : Reachable ⟨.new, []⟩ := Interleaving.reachable_nil
  have hensure := (Interleaving.Reachable.joins hnew (.ensureReason [0])).acts [] [] (.ensures rfl)
  have hlocks := (hensure.joins (.requestWithReason [1])).acts [Call.ended] [] (.locksRequest rfl)
  have hrequesting : Reachable ⟨_, [.ended] ++ .requesting [1] :: []⟩ := hlocks
  have hfirst := Interleaving.Reachable.acts _ [] hrequesting .exchanges
  have hgranted := hfirst.acts _ [] .grants
  have hclearing := (hgranted.joins .clearHandledReason).acts [Call.ended, .ended] []
    (.locksClear rfl)
  have hkept := (hclearing.acts _ [] .checks).acts _ [] .clears
  have hread := (hkept.joins .reason).acts [Call.ended, .ended, .ended] [] (.reads rfl)
  exact ⟨_, hread, rfl, (reasons_stable hread).2⟩

end Pydeno.Runtime.Termination
