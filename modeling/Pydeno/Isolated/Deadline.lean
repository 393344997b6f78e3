import Pydeno.Isolated.Model.Pump
/-!
# Deadline accounting

The pump keeps its deadline incrementally: it adds each pause when the last
outstanding call ends and each console grant when the console call ends. This
file says what the deadline means, by adding up the stretches between
consecutive events, and proves that the pump computes it.

`Accounts` is the invariant: it relates the pump to what the host is doing
(`Busy`) and to the two totals so far. `Accounts.step` carries it over one
event, `accounts_run` over a whole sequence.
-/

namespace Pydeno.Isolated

open Pump

/-! ## What the accounting means -/

/-- What the host is doing for the command: how many calls are outstanding,
and whether a console call is in progress. -/
structure Busy where
  calls : ℕ
  console : Bool
  deriving Repr, DecidableEq

/-- What the host is doing after an event. A call ends only when one is
outstanding, console calls do not overlap, and no call begins during one. -/
def Busy.after (b : Busy) : PumpEvent → Option Busy
  | .beginCall => if b.console then none else some { b with calls := b.calls + 1 }
  | .endCall => if b.calls = 0 then none else some { b with calls := b.calls - 1 }
  | .beginConsole => if b.console then none else some { b with console := true }
  | .endConsole => if b.console then some { b with console := false } else none

/-- The stretches between consecutive events up to the instant `query`, each
with what the host is doing during it; `none` if an event cannot happen where
it stands, or an instant goes back. -/
def stretches (b : Busy) (since : ℚ) : List Timed → ℚ → Option (List (Busy × ℚ))
  | [], query => if since ≤ query then some [(b, query - since)] else none
  | e :: events, query =>
    if since ≤ e.now then
      match b.after e.event with
      | none => none
      | some b' => (stretches b' e.now events query).map ((b, e.now - since) :: ·)
    else none

/-- The time spent in stretches of one kind. -/
def timeIn (kind : Busy → Bool) (parts : List (Busy × ℚ)) : ℚ :=
  (parts.map fun part => if kind part.1 then part.2 else 0).sum

/-- Time covered by at least one outstanding call. -/
def covered : List (Busy × ℚ) → ℚ :=
  timeIn fun b => b.calls ≠ 0

/-- Console time not covered by an outstanding call. -/
def consoleTime : List (Busy × ℚ) → ℚ :=
  timeIn fun b => b.console && b.calls = 0

/-- What the host is doing after the last event. -/
def busyAt (parts : List (Busy × ℚ)) : Busy :=
  (parts.getLast?.map (·.1)).getD ⟨0, false⟩

theorem timeIn_cons (kind : Busy → Bool) (b : Busy) (d : ℚ) (parts : List (Busy × ℚ)) :
    timeIn kind ((b, d) :: parts) = (if kind b then d else 0) + timeIn kind parts := by
  simp [timeIn]

theorem stretches_ne_nil {b : Busy} {since query : ℚ} {events : List Timed}
    {parts : List (Busy × ℚ)} (h : stretches b since events query = some parts) : parts ≠ [] := by
  cases events with
  | nil =>
    rw [stretches] at h
    split at h
    · obtain rfl : [(b, query - since)] = parts := by simpa using h
      simp
    · cases h
  | cons e events =>
    rw [stretches] at h
    split at h
    · split at h
      · cases h
      · obtain ⟨rest, -, rfl⟩ := Option.map_eq_some_iff.1 h
        simp
    · cases h

/-! ## The invariant -/

/-- **The pump's books.** `cov` and `con` are the covered time and the
uncovered console time up to `now`; `granted` is the part of `con` that
belongs to console calls already over. -/
structure Accounts (hard wait start : ℚ) (b : Busy) (now cov con granted : ℚ) (p : Pump) :
    Prop where
  clock : 0 < now
  outstanding : p.outstanding = b.calls
  maxHostWait : p.maxHostWait = some wait
  deadline : p.deadline = some (start + hard + p.pausedTotal + min hard granted)
  consoleLeft : p.consoleLeft = some (hard - min hard granted)
  granted_nonneg : 0 ≤ granted
  paused : cov = p.pausedTotal + if b.calls = 0 then 0 else now - p.pausedAt
  resumed : p.resumedAt ≤ now
  idle : b.console = false → p.consoleAt = 0
  began : b.console = true → 0 < p.consoleAt ∧ p.consoleAt ≤ now
  console : con = granted +
    if b.console = true ∧ b.calls = 0 then now - max p.consoleAt p.resumedAt else 0

/-- A new pump's books are empty. -/
theorem accounts_init (hard : ℚ≥0) (wait : ℚ) (cpuCap cpuStart : Option ℚ) {start : ℚ}
    (hstart : 0 < start) : Accounts hard wait start ⟨0, false⟩ start 0 0 0
      (init (some hard) (some wait) cpuCap cpuStart start) := by
  refine ⟨hstart, rfl, rfl, ?_, ?_, le_refl _, by simp [init], hstart.le, fun _ => rfl,
    fun h => by simp at h, by simp⟩
  · simp [init]
  · simp [init]

/-- What is added to the two totals while time passes and nothing happens. -/
theorem Accounts.advance {hard wait start now later cov con granted : ℚ} {b : Busy} {p : Pump}
    (h : Accounts hard wait start b now cov con granted p) (hle : now ≤ later) :
    Accounts hard wait start b later (cov + if b.calls = 0 then 0 else later - now)
      (con + if b.console = true ∧ b.calls = 0 then later - now else 0) granted p := by
  refine ⟨lt_of_lt_of_le h.clock hle, h.outstanding, h.maxHostWait, h.deadline, h.consoleLeft,
    h.granted_nonneg, ?_, h.resumed.trans hle, h.idle, ?_, ?_⟩
  · rw [h.paused]
    split <;> ring
  · intro hb
    obtain ⟨h0, h1⟩ := h.began hb
    exact ⟨h0, h1.trans hle⟩
  · rw [h.console]
    split <;> ring

/-- Adding a console call's time to the time granted so far, under the
allowance. -/
theorem min_add_grant {hard granted spent : ℚ} (hspent : 0 ≤ spent) :
    min hard granted + max 0 (min spent (hard - min hard granted)) = min hard (granted + spent) := by
  rcases le_total hard granted with h | h
  · rw [min_eq_left h, min_eq_left (h.trans (le_add_of_nonneg_right hspent)), sub_self,
      min_eq_right hspent, max_self, add_zero]
  · rw [min_eq_right h]
    rcases le_total spent (hard - granted) with h' | h'
    · rw [min_eq_left h', max_eq_right hspent, min_eq_right (by linarith)]
    · rw [min_eq_right h', max_eq_right (by linarith), min_eq_left (by linarith)]
      ring

/-- The grant of a console call in progress at `now`. -/
theorem Accounts.grant {hard wait start now cov con granted : ℚ} {b : Busy} {p : Pump}
    (h : Accounts hard wait start b now cov con granted p) :
    min hard granted + p.consoleGrant now = min hard con := by
  rw [consoleGrant, h.consoleLeft]
  by_cases hb : b.console = true ∧ b.calls = 0
  · -- console time is running: it is granted as far as the allowance goes
    obtain ⟨h0, h1⟩ := h.began hb.1
    have hspent : 0 ≤ now - max p.consoleAt p.resumedAt :=
      sub_nonneg.2 (max_le h1 h.resumed)
    have hnot : ¬ (p.consoleAt = 0 ∨ p.outstanding ≠ 0) := by
      rw [h.outstanding, hb.2]
      simp [h0.ne']
    have hcon : con = granted + (now - max p.consoleAt p.resumedAt) := by
      rw [h.console, if_pos hb]
    simp only [if_neg hnot]
    rw [min_add_grant hspent, hcon]
  · have hcon : con = granted := by rw [h.console, if_neg hb, add_zero]
    have hzero : p.consoleAt = 0 ∨ p.outstanding ≠ 0 := by
      rw [h.outstanding]
      by_cases hc : b.console = true
      · right
        have : b.calls ≠ 0 := fun h0 => hb ⟨hc, h0⟩
        exact_mod_cast this
      · left
        exact h.idle (by simpa using hc)
    simp only [if_pos hzero, add_zero, hcon]

/-! ## One event -/

section

variable {hard wait start now cov con granted : ℚ} {b b' : Busy} {p : Pump}

section

variable (h : Accounts hard wait start b now cov con granted p)
include h

theorem Accounts.beginCall (hb : b.after .beginCall = some b') :
    Accounts hard wait start b' now cov con granted (p.beginCall now) := by
  obtain ⟨hc, rfl⟩ : b.console = false ∧ { b with calls := b.calls + 1 } = b' := by
    simpa [Busy.after] using hb
  refine ⟨h.clock, ?_, h.maxHostWait, h.deadline, h.consoleLeft, h.granted_nonneg, ?_,
    h.resumed, h.idle, fun h' => ?_, ?_⟩
  · simp [beginCall, h.outstanding]
  · rw [h.paused]
    by_cases h0 : b.calls = 0
    · simp [beginCall, h.outstanding, h0]
    · simp [beginCall, h.outstanding, h0]
  · rw [hc] at h'
    cases h'
  · rw [h.console]
    simp [hc]

theorem Accounts.endCall (hb : b.after .endCall = some b') :
    Accounts hard wait start b' now cov con granted (p.endCall now) := by
  obtain ⟨h0, rfl⟩ : b.calls ≠ 0 ∧ { b with calls := b.calls - 1 } = b' := by
    simpa [Busy.after] using hb
  have hcalls : p.outstanding - 1 = ((b.calls - 1 : ℕ) : ℤ) := by
    rw [h.outstanding]
    omega
  have hcon : con = granted := by
    rw [h.console, if_neg (fun hx => h0 hx.2), add_zero]
  have hpaused : cov = p.pausedTotal + (now - p.pausedAt) := by
    rw [h.paused, if_neg h0]
  by_cases hlast : b.calls - 1 = 0
  · -- the last outstanding call: its pause is added to the deadline
    have hz : p.outstanding - 1 = 0 := by
      rw [hcalls, hlast]
      rfl
    rw [endCall, if_pos hz]
    refine ⟨h.clock, hcalls, h.maxHostWait, ?_, h.consoleLeft, h.granted_nonneg, ?_, le_refl _,
      h.idle, h.began, ?_⟩
    · simp only [h.deadline, Option.map_some]
      congr 1
      ring
    · simp only [hlast, if_true]
      rw [hpaused]
      ring
    · simp only
      split
      next hin =>
        rw [max_eq_right (h.began hin.1).2, hcon]
        ring
      · rw [hcon, add_zero]
  · have hz : ¬ p.outstanding - 1 = 0 := by
      rw [hcalls]
      exact_mod_cast hlast
    rw [endCall, if_neg hz]
    refine ⟨h.clock, hcalls, h.maxHostWait, h.deadline, h.consoleLeft, h.granted_nonneg, ?_,
      h.resumed, h.idle, h.began, ?_⟩
    · simp only [if_neg hlast]
      exact hpaused
    · simp only [if_neg (fun hx : _ ∧ _ => hlast hx.2), add_zero]
      exact hcon

theorem Accounts.beginConsole (hb : b.after .beginConsole = some b') :
    Accounts hard wait start b' now cov con granted (p.beginConsole now) := by
  obtain ⟨hc, rfl⟩ : b.console = false ∧ { b with console := true } = b' := by
    simpa [Busy.after] using hb
  have hcon : con = granted := by
    rw [h.console, if_neg (by simp [hc]), add_zero]
  refine ⟨h.clock, h.outstanding, h.maxHostWait, h.deadline, h.consoleLeft, h.granted_nonneg,
    h.paused, h.resumed, (fun h' => by cases h'), fun _ => ⟨h.clock, le_refl _⟩, ?_⟩
  simp only [beginConsole]
  rw [max_eq_left h.resumed, sub_self, ite_self, add_zero, hcon]

/-- At its end, the whole of a console call's uncovered time counts as
granted. -/
theorem Accounts.endConsole (hb : b.after .endConsole = some b') :
    Accounts hard wait start b' now cov con con (p.endConsole now) := by
  obtain ⟨hc, rfl⟩ : b.console = true ∧ { b with console := false } = b' := by
    simpa [Busy.after] using hb
  have hgrant := h.grant
  have hnonneg : granted ≤ con := by
    rw [h.console]
    split
    · have := sub_nonneg.2 (max_le (h.began hc).2 h.resumed)
      linarith
    · linarith
  rw [endConsole, h.deadline]
  refine ⟨h.clock, h.outstanding, h.maxHostWait, ?_, ?_, h.granted_nonneg.trans hnonneg,
    h.paused, h.resumed, fun _ => rfl, (fun h' => by cases h'), by simp⟩
  · simp only
    rw [← hgrant, add_assoc]
  · simp only [h.consoleLeft, Option.map_some]
    rw [← hgrant]
    congr 1
    ring

end

/-- One event keeps the books. -/
theorem Accounts.step {e : Timed} (h : Accounts hard wait start b e.now cov con granted p)
    (hb : b.after e.event = some b') :
    ∃ granted', Accounts hard wait start b' e.now cov con granted' (p.step e) := by
  obtain ⟨now, event⟩ := e
  cases event with
  | beginCall => exact ⟨granted, h.beginCall hb⟩
  | endCall => exact ⟨granted, h.endCall hb⟩
  | beginConsole => exact ⟨granted, h.beginConsole hb⟩
  | endConsole => exact ⟨con, h.endConsole hb⟩

end

/-! ## A whole command -/

/-- A sequence of events that can happen keeps the books, up to the query. -/
theorem accounts_run {hard wait start query : ℚ} (events : List Timed) :
    ∀ {now cov con granted : ℚ} {b : Busy} {p : Pump} {parts : List (Busy × ℚ)},
      Accounts hard wait start b now cov con granted p → stretches b now events query = some parts →
      ∃ granted', Accounts hard wait start (busyAt parts) query (cov + covered parts)
        (con + consoleTime parts) granted' (p.run events) := by
  induction events with
  | nil =>
    intro now cov con granted b p parts h hparts
    rw [stretches] at hparts
    split at hparts
    next hle =>
      obtain rfl : [(b, query - now)] = parts := by simpa using hparts
      refine ⟨granted, ?_⟩
      have h' := h.advance hle
      simpa [covered, consoleTime, timeIn, busyAt, run] using h'
    · cases hparts
  | cons e events ih =>
    intro now cov con granted b p parts h hparts
    rw [stretches] at hparts
    split at hparts
    next hle =>
      split at hparts
      · cases hparts
      next b' hb =>
        obtain ⟨rest, hrest, rfl⟩ := Option.map_eq_some_iff.1 hparts
        obtain ⟨granted', h'⟩ := (h.advance hle).step hb
        obtain ⟨granted'', h''⟩ := ih h' hrest
        refine ⟨granted'', ?_⟩
        have hbusy : busyAt ((b, e.now - now) :: rest) = busyAt rest := by
          have hne : rest ≠ [] := stretches_ne_nil hrest
          simp [busyAt, List.getLast?_cons, List.getLast?_eq_some_getLast hne]
        rw [hbusy, covered, consoleTime, timeIn_cons, timeIn_cons, ← add_assoc, ← add_assoc]
        simpa [covered, consoleTime, run] using h''
    · cases hparts

/-- **The deadline counts every instant once.** For every sequence of events
that can happen and every query instant with no call outstanding, the command
is expired exactly when its time since the start, less the time covered by an
outstanding call, less the smaller of the hard timeout and the uncovered
console time, exceeds the hard timeout; and it has waited too long exactly
when the covered time exceeds `max_host_wait`.

`hstart` says that the clock is past its zero, which the pump keeps for "no
console call". -/
theorem expired_iff_overdrawn (hard : ℚ≥0) (wait start query : ℚ) (cpuCap cpuStart : Option ℚ)
    (events : List Timed) (parts : List (Busy × ℚ)) (hstart : 0 < start)
    (hparts : stretches ⟨0, false⟩ start events query = some parts)
    (hidle : (busyAt parts).calls = 0) :
    let p := (Pump.init (some hard) (some wait) cpuCap cpuStart start).run events
    (p.expired query = true ↔
      (hard : ℚ) < query - start - covered parts - min (hard : ℚ) (consoleTime parts)) ∧
    (p.waitedTooLong query = true ↔ wait < covered parts) := by
  intro p
  obtain ⟨granted, h⟩ := accounts_run events (accounts_init hard wait cpuCap cpuStart hstart) hparts
  rw [zero_add, zero_add] at h
  have hout : p.outstanding = 0 := by
    rw [h.outstanding, hidle]
    rfl
  have hpaused : covered parts = p.pausedTotal := by
    rw [h.paused, if_pos hidle, add_zero]
  constructor
  · rw [Pump.expired, h.deadline]
    simp only [hout, ne_eq, not_true_eq_false, if_false, decide_eq_true_eq]
    rw [add_assoc, h.grant, hpaused]
    constructor <;> intro hlt <;> linarith
  · rw [Pump.waitedTooLong, h.maxHostWait]
    simp only [hout, ne_eq, not_true_eq_false, if_false, decide_eq_true_eq]
    rw [hpaused]

/-- Two overlapping calls and a console call that straddles the end of the
second, with a hard timeout of 2 s. -/
def straddling : List Timed :=
  [⟨11, .beginCall⟩, ⟨12, .beginCall⟩, ⟨13, .endCall⟩, ⟨14, .beginConsole⟩, ⟨15, .endCall⟩,
    ⟨18, .endConsole⟩]

theorem expired_iff_overdrawn_straddling :
    let p := (Pump.init (some 2) (some 5) none none 10).run straddling
    (p.expired 19 = true ↔ (2 : ℚ) < 19 - 10 - 4 - min 2 3) ∧
    (p.waitedTooLong 19 = true ↔ (5 : ℚ) < 4) := by
  have h := expired_iff_overdrawn 2 5 10 19 none none straddling
    [(⟨0, false⟩, 1), (⟨1, false⟩, 1), (⟨2, false⟩, 1), (⟨1, false⟩, 1), (⟨1, true⟩, 1),
      (⟨0, true⟩, 3), (⟨0, false⟩, 1)]
    (by norm_num) (by decide +kernel) (by decide +kernel)
  have hcov : covered [(⟨0, false⟩, 1), (⟨1, false⟩, 1), (⟨2, false⟩, 1), (⟨1, false⟩, 1),
      (⟨1, true⟩, 1), (⟨0, true⟩, 3), (⟨0, false⟩, 1)] = 4 := by decide +kernel
  have hcon : consoleTime [(⟨0, false⟩, 1), (⟨1, false⟩, 1), (⟨2, false⟩, 1), (⟨1, false⟩, 1),
      (⟨1, true⟩, 1), (⟨0, true⟩, 3), (⟨0, false⟩, 1)] = 3 := by decide +kernel
  rw [hcov, hcon] at h
  exact h

end Pydeno.Isolated
