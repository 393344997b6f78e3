import Pydeno.Isolated.Model.Frames

/-!
# The frame splitter pops the frames of its stream

`Splits` says what the frames of a stream are, one after the other. A delivery splits
what it adds to the unfinished end (`exists_split`), so that the frames popped and held
are those of the whole stream in every run (`holds_of_run`).
-/

namespace Pydeno.Isolated.FrameReader

open List
open Wire (MAX_FRAME_BYTES)

/-! ## The frames of a stream -/

/-- No frame is complete, and none is over the cap. -/
def Unfinished (s : List ℕ) : Prop :=
  4 ≤ s.length → header s ≤ MAX_FRAME_BYTES ∧ s.length < 4 + header s

/-- **The frames of a stream** up to its unfinished end, or up to the first header over
the cap (`none`). -/
inductive Splits : List ℕ → List (List ℕ) → Option (List ℕ) → Prop
  | rest {s} : Unfinished s → Splits s [] (some s)
  | refused {s} : 4 ≤ s.length → MAX_FRAME_BYTES < header s → Splits s [] none
  | frame {head payload s fs e} : head.length = 4 → header head = payload.length →
      payload.length ≤ MAX_FRAME_BYTES → Splits s fs e →
      Splits (head ++ (payload ++ s)) (payload :: fs) e

variable {s data rest : List ℕ} {fs gs : List (List ℕ)} {e : Option (List ℕ)}

theorem header_append (h : 4 ≤ s.length) : header (s ++ data) = header s := by
  rw [header, take_append_of_le_length h, header]

theorem Splits.unfinished (h : Splits s fs e) : ∀ rest, e = some rest → Unfinished rest := by
  induction h with
  | rest h => exact fun _ he => Option.some.inj he ▸ h
  | refused => exact fun _ he => nomatch he
  | frame _ _ _ _ ih => exact ih

/-- What follows is split from the unfinished end on. -/
theorem Splits.append (h : Splits s fs e) : ∀ {rest}, e = some rest →
    ∀ {e'}, Splits (rest ++ data) gs e' → Splits (s ++ data) (fs ++ gs) e' := by
  induction h with
  | rest =>
    intro rest he e' hrest
    obtain rfl := Option.some.inj he
    exact hrest
  | refused => exact fun he => nomatch he
  | frame hhead heq hcap _ ih =>
    intro rest he e' hrest
    rw [append_assoc, append_assoc]
    exact .frame hhead heq hcap (ih he hrest)

theorem Splits.length_le (h : Splits s fs e) : fs.length ≤ s.length := by
  induction h with
  | rest => exact Nat.zero_le _
  | refused => exact Nat.zero_le _
  | frame hhead _ _ _ ih =>
    simp only [length_cons, length_append]
    omega

/-- Each frame that a delivery completes ends with a byte of its own. -/
theorem Splits.length_le_of_unfinished (h : Splits (rest ++ data) fs e)
    (hrest : Unfinished rest) : fs.length ≤ data.length := by
  generalize hs : rest ++ data = s at h
  cases h with
  | rest => exact Nat.zero_le _
  | refused => exact Nat.zero_le _
  | @frame head payload t gs _ hhead heq hcap htail =>
    have hlen := congrArg length hs
    simp only [length_append] at hlen
    have hshort : rest.length < 4 + payload.length := by
      by_cases h4 : 4 ≤ rest.length
      · have hheader := congrArg header hs
        rw [header_append h4, header_append hhead.ge, heq] at hheader
        exact hheader ▸ (hrest h4).2
      · omega
    have := htail.length_le
    rw [length_cons]
    omega

/-! ## A delivery -/

/-- **What the loop does**: `fs` are the frames it takes off the buffer. -/
structure Split (r r' : FrameReader) (fs : List (List ℕ)) : Prop where
  frames : r'.frames = r.frames ++ fs
  splits : Splits r.buf fs (if r'.error.isSome then none else some r'.buf)
  queued : r'.queued = r.queued + (fs.map length).sum
  held : (fs.map length).sum + r'.buf.length ≤ r.buf.length
  paused : r'.paused = (r.paused || r'.error.isSome)

theorem exists_split (r : FrameReader) (h : r.error = none) : ∃ fs, Split r r.splitFrames fs := by
  fun_induction splitFrames r with
  | case1 r hshort =>
    refine ⟨[], (append_nil _).symm, ?_, rfl, by simp, by simp [h]⟩
    simpa [h] using .rest fun h4 => absurd hshort h4.not_gt
  | case2 r hlong length hover =>
    exact ⟨[], (append_nil _).symm, .refused (not_lt.mp hlong) hover, rfl, Nat.zero_le _,
      (Bool.or_true _).symm⟩
  | case3 r hlong length hcap stop hshort =>
    refine ⟨[], (append_nil _).symm, ?_, rfl, by simp, by simp [h]⟩
    simpa [h] using .rest fun _ => ⟨not_lt.mp hcap, hshort⟩
  | case4 r hlong length hcap stop hwhole ih =>
    obtain ⟨fs, hframes, hsplits, hqueued, hheld, hpaused⟩ := ih h
    have hpayload : ((r.buf.take stop).drop 4).length = length := by
      rw [length_drop, length_take]
      omega
    have hbuf : r.buf.take 4 ++ ((r.buf.take stop).drop 4 ++ r.buf.drop stop) = r.buf := by
      have h4 : (r.buf.take stop).take 4 = r.buf.take 4 := by
        rw [take_take, min_eq_left (by omega)]
      rw [← append_assoc, ← h4, take_append_drop, take_append_drop]
    have hhead : header (r.buf.take 4) = length := by
      rw [header, take_take, min_self]
      rfl
    refine ⟨(r.buf.take stop).drop 4 :: fs, ?_, ?_, ?_, ?_, hpaused⟩
    · rw [hframes, append_assoc, singleton_append]
    · have hframe := Splits.frame (length_take_of_le (not_lt.mp hlong))
        (hhead.trans hpayload.symm) (hpayload.trans_le (not_lt.mp hcap)) hsplits
      rwa [hbuf] at hframe
    · rw [hqueued, map_cons, sum_cons, hpayload, add_assoc]
    · simp only [length_drop] at hheld
      rw [map_cons, sum_cons, hpayload]
      omega

/-! ## A run -/

/-- The bytes a reader holds. -/
def held (r : FrameReader) : ℕ := (r.frames.map length).sum + r.buf.length

/-- **What holds in a run.** -/
structure Holds (d : ℕ) (stream : List ℕ) (popped : List (List ℕ)) (r : FrameReader) : Prop where
  splits : Splits stream (popped ++ r.frames) (if r.error.isSome then none else some r.buf)
  queued : r.queued = (r.frames.map length).sum
  failed : r.error.isSome = true → r.paused = true
  flows : r.paused = false → r.held ≤ readHighWater ∧ r.frames.length < readHighFrames
  bounded : r.held ≤ readHighWater + d ∧ r.frames.length < readHighFrames + d
  waits : r.paused = true → r.error = none → r.frames ≠ []

variable {d : ℕ} {stream : List ℕ} {popped : List (List ℕ)} {r r' : FrameReader} {payload : List ℕ}

/-- An unfinished frame fits below the high water mark. -/
theorem Unfinished.length_lt (h : Unfinished s) : s.length < 4 + MAX_FRAME_BYTES := by
  by_cases h4 : 4 ≤ s.length
  · have := h h4
    omega
  · omega

theorem Holds.unfinished (h : Holds d stream popped r) (he : r.error = none) : Unfinished r.buf :=
  h.splits.unfinished r.buf (by rw [he]; rfl)

theorem Holds.deliver (h : Holds d stream popped r) (hflows : r.paused = false)
    (hd : data.length ≤ d) : Holds d (stream ++ data) popped (r.dataReceived data) := by
  have he : r.error = none := by
    cases he : r.error with
    | none => rfl
    | some text => exact nomatch hflows.symm.trans (h.failed (by rw [he]; rfl))
  obtain ⟨hheld, hcount⟩ := h.flows hflows
  obtain ⟨fs, hsplit⟩ := exists_split { r with buf := r.buf ++ data } he
  have hdata : Splits (r.buf ++ data) fs _ := hsplit.splits
  have hsplits := h.splits.append (by rw [he]; rfl) hdata
  have hnew := hdata.length_le_of_unfinished (h.unfinished he)
  rw [dataReceived, if_neg (by simp [he])]
  generalize splitFrames { r with buf := r.buf ++ data } = t at hsplit hsplits ⊢
  obtain ⟨hframes, -, hqueued, hless, hpaused⟩ := hsplit
  simp only [held, length_append] at hframes hqueued hless hpaused hheld ⊢
  rw [append_assoc, ← hframes] at hsplits
  have hsum : t.queued = (t.frames.map length).sum := by
    rw [hqueued, hframes, map_append, sum_append, h.queued]
  have hbounded : t.held ≤ readHighWater + d ∧ t.frames.length < readHighFrames + d := by
    rw [held, ← hsum, hqueued, h.queued, hframes, length_append]
    omega
  split
  next hfull =>
    refine ⟨hsplits, hsum, fun _ => rfl, nofun, hbounded, fun _ hnone hnil => ?_⟩
    -- without a frame there is only the unfinished end, which is below the marks
    have hend := (hsplits.unfinished t.buf (by rw [show t.error = none from hnone]; rfl)).length_lt
    have hnil : t.frames = [] := hnil
    simp only [hsum, hnil, map_nil, sum_nil, length_nil, readHighWater, readHighFrames] at hfull
    omega
  next hroom =>
    rw [not_or, not_lt, not_le, hsum] at hroom
    refine ⟨hsplits, hsum, fun hfail => ?_, fun _ => hroom, hbounded, fun hp hnone => ?_⟩
    · rw [hpaused, hfail, Bool.or_true]
    · rw [hpaused, hflows, hnone] at hp
      cases hp

theorem Holds.pop (h : Holds d stream popped r) (hpop : r.pop = some (payload, r')) :
    Holds d stream (popped ++ [payload]) r' := by
  obtain ⟨hsplits, hqueued, hfailed, hflows, ⟨hheld, hcount⟩, hwaits⟩ := h
  cases hr : r.frames with
  | nil => simp [FrameReader.pop, hr] at hpop
  | cons p frames =>
    simp only [held, hr, map_cons, sum_cons, length_cons] at hsplits hqueued hflows hheld hcount
    have hsum : r.queued - p.length = (frames.map length).sum := by omega
    rw [append_cons] at hsplits
    simp only [FrameReader.pop, hr, Option.some.injEq, Prod.mk.injEq, hsum] at hpop
    obtain ⟨rfl, rfl⟩ := hpop
    split
    next hresumes =>
      obtain ⟨-, hnone, hlow⟩ := hresumes
      refine ⟨hsplits, rfl, fun hfail => ?_, fun _ => ?_, ?_, nofun⟩
      · simp only [hnone] at hfail
        cases hfail
      · have hend := (hsplits.unfinished r.buf (by rw [hnone]; rfl)).length_lt
        simp only [held, readHighWater, readHighFrames]
        simp only [readLowWater, readLowFrames] at hlow
        rcases hlow with rfl | hlow
        · simp only [map_nil, sum_nil, length_nil]
          omega
        · omega
      · simp only [held]
        omega
    next hstays =>
      refine ⟨hsplits, rfl, hfailed, fun hp => ?_, ?_, fun hp hnone hnil => ?_⟩
      · have := hflows hp
        simp only [held]
        omega
      · simp only [held]
        omega
      · exact hstays ⟨hp, hnone, .inl hnil⟩

theorem holds_of_run (h : Run d stream popped r) : Holds d stream popped r := by
  induction h with
  | start =>
    refine ⟨.rest fun h4 => ?_, rfl, nofun, fun _ => by decide, ?_, nofun⟩
    · exact absurd h4 (by decide)
    · simp [held, readHighFrames]
  | deliver _ hflows hd ih => exact ih.deliver hflows hd
  | pop _ hpop ih => exact ih.pop hpop

/-- **The asynchronous splitter.** In every run the payloads popped, and then those held,
are the frames of the stream in order up to the first header over the cap, and an error is
set exactly when there is one. Reading goes on only below the marks, so that a
delivery's bytes are all that is ever held above them; and it is paused without an error
only while a frame can be popped. -/
theorem frames_exact (h : Run d stream popped r) :
    Splits stream (popped ++ r.frames) (if r.error.isSome then none else some r.buf) ∧
    (r.paused = false → r.held ≤ 2 * MAX_FRAME_BYTES + 8 ∧ r.frames.length < 1024) ∧
    (r.held ≤ 2 * MAX_FRAME_BYTES + 8 + d ∧ r.frames.length < 1024 + d) ∧
    (r.paused = true → r.error = none → ∃ payload r', r.pop = some (payload, r')) := by
  have hr := holds_of_run h
  refine ⟨hr.splits, hr.flows, hr.bounded, fun hp hnone => ?_⟩
  obtain ⟨payload, frames, hframes⟩ := exists_cons_of_ne_nil (hr.waits hp hnone)
  rw [FrameReader.pop, hframes]
  exact ⟨_, _, rfl⟩

/-- A frame that is cut over two deliveries and popped, with the beginning of the next. -/
theorem frames_exact_delivered : ∃ r, Run 5 [2, 0, 0, 0, 7, 8, 3] [[7, 8]] r ∧ r.buf = [3] ∧
    Splits [2, 0, 0, 0, 7, 8, 3] ([[7, 8]] ++ r.frames) (if r.error.isSome then none else some r.buf) ∧
    r.held ≤ 2 * MAX_FRAME_BYTES + 8 + 5 := by
  have hcut : ({} : FrameReader).dataReceived [2, 0, 0, 0, 7] = { buf := [2, 0, 0, 0, 7] } := by
    simp [dataReceived, splitFrames, header, Nat.ofDigits, MAX_FRAME_BYTES, readHighWater,
      readHighFrames]
  have hwhole : ({ buf := [2, 0, 0, 0, 7] } : FrameReader).dataReceived [8, 3] =
      { buf := [3], frames := [[7, 8]], queued := 2 } := by
    simp [dataReceived, splitFrames, header, Nat.ofDigits, MAX_FRAME_BYTES, readHighWater,
      readHighFrames]
  have h : Run 5 [2, 0, 0, 0, 7] [] { buf := [2, 0, 0, 0, 7] } :=
    hcut ▸ .deliver .start rfl (by decide)
  have h : Run 5 [2, 0, 0, 0, 7, 8, 3] [] { buf := [3], frames := [[7, 8]], queued := 2 } :=
    hwhole ▸ .deliver h rfl (by decide)
  have h : Run 5 [2, 0, 0, 0, 7, 8, 3] [[7, 8]] { buf := [3] } := .pop h rfl
  exact ⟨_, h, rfl, (frames_exact h).1, (frames_exact h).2.2.1.1⟩

end Pydeno.Isolated.FrameReader
