import Pydeno.Wire.Model.Decoder

/-!
# The asynchronous frame splitter

`_FrameReader` of `python/pydeno/_aio.py`, with its transport connected and the cap it
has by default, and the deliveries and pops it sees. The waiter and the end of the
stream touch none of its frames and are left out.
-/

namespace Pydeno.Isolated

open Wire (ascii MAX_FRAME_BYTES)

/-- `_READ_HIGH_WATER` -/
def readHighWater : ℕ := 2 * MAX_FRAME_BYTES + 8

/-- `_READ_LOW_WATER` -/
def readLowWater : ℕ := MAX_FRAME_BYTES

/-- `_READ_HIGH_FRAMES` -/
def readHighFrames : ℕ := 1024

/-- `_READ_LOW_FRAMES` -/
def readLowFrames : ℕ := 512

/-- `_HEADER.unpack_from(buf)` -/
def header (buf : List ℕ) : ℕ := Nat.ofDigits 256 (buf.take 4)

/-- `_FrameReader` -/
structure FrameReader where
  buf : List ℕ := []
  frames : List (List ℕ) := []
  queued : ℕ := 0
  error : Option (List ℕ) := none
  paused : Bool := false

namespace FrameReader

/-- `_pause` -/
def pause (r : FrameReader) : FrameReader := { r with paused := true }

/-- The loop of `data_received`. -/
def splitFrames (r : FrameReader) : FrameReader :=
  if r.buf.length < 4 then r
  else
    let length := header r.buf
    if MAX_FRAME_BYTES < length then
      { r with
        error := some (ascii ("frame of " ++ toString length ++ " bytes exceeds the " ++
          toString MAX_FRAME_BYTES ++ " byte cap"))
        buf := [] }.pause
    else
      let stop := 4 + length
      if r.buf.length < stop then r
      else splitFrames { r with
        frames := r.frames ++ [(r.buf.take stop).drop 4]
        queued := r.queued + length
        buf := r.buf.drop stop }
termination_by r.buf.length
decreasing_by simp only [List.length_drop]; omega

/-- `data_received` -/
def dataReceived (r : FrameReader) (data : List ℕ) : FrameReader :=
  if r.error.isSome then r
  else
    let r := splitFrames { r with buf := r.buf ++ data }
    if readHighWater < r.queued + r.buf.length ∨ readHighFrames ≤ r.frames.length then r.pause
    else r

/-- `pop`, which `_next_frame` calls when there is a frame. -/
def pop (r : FrameReader) : Option (List ℕ × FrameReader) :=
  match r.frames with
  | [] => none
  | payload :: frames =>
    let r := { r with frames, queued := r.queued - payload.length }
    -- an unfinished frame needs input when nothing can be popped
    let resumes := r.paused ∧ r.error = none ∧ (frames = [] ∨
      r.queued + r.buf.length < readLowWater ∧ frames.length < readLowFrames)
    some (payload, if resumes then { r with paused := false } else r)

/-- **A run**: what was delivered, what was popped, and the reader. The transport delivers
at most `d` bytes at a time, and nothing while reading is paused. -/
inductive Run (d : ℕ) : List ℕ → List (List ℕ) → FrameReader → Prop
  | start : Run d [] [] {}
  | deliver {stream popped r data} : Run d stream popped r → r.paused = false →
      data.length ≤ d → Run d (stream ++ data) popped (r.dataReceived data)
  | pop {stream popped r payload r'} : Run d stream popped r → r.pop = some (payload, r') →
      Run d stream (popped ++ [payload]) r'

end FrameReader

end Pydeno.Isolated
