import Mathlib

/-!
# The calls of a tool process

`_Child` of `python/pydeno/_toolproc.py` with the submits of any threads, its reader and
its supervisor. What a thread does while it holds the lock is one step. A call that was
taken out of `pending` is completed later, by the thread that took it. Of a call's frame
only the size counts: the payload without the digits of the call's id.
-/

namespace Pydeno.Isolated.ToolProcess

/-- How a call ends: by its frame, by the time-out or by the death error. -/
inductive Outcome where
  | frame
  | timedOut
  | died
  deriving DecidableEq

/-- `_Child`, with the submits that have registered a call and not sent it yet, the calls
that submits have returned, and the calls on the way to their completion. -/
structure Child where
  nextCid : ℕ := 1
  pending : List ℕ := []
  dead : Bool := false
  killed : Bool := false
  sending : List (ℕ × ℕ) := []
  returned : List ℕ := []
  taken : List (ℕ × Outcome) := []
  completed : List (ℕ × Outcome) := []

namespace Child

/-- `len(payload_for(cid))` -/
def frameSize (payload cid : ℕ) : ℕ := payload + (Nat.log 10 cid + 1)

/-- `_submit` up to where it has registered a call: `none` where it raises, for arguments
that are not encodable or a frame over the cap. A child that is dead or killed takes no
call. -/
def submit (cap : ℕ) (c : Child) : Option ℕ → Option Child
  | none => none
  | some payload =>
    -- `payload_for(0)`
    if cap < frameSize payload 0 then none
    else if c.dead || c.killed then some c
    else some { c with
      nextCid := c.nextCid + 1
      pending := c.pending ++ [c.nextCid]
      sending := c.sending ++ [(c.nextCid, payload)] }

/-- The end of `submit`. -/
def sent (c : Child) (call : ℕ × ℕ) : Child :=
  { c with sending := c.sending.erase call, returned := c.returned ++ [call.1] }

/-- `kill` -/
def kill (c : Child) : Child := { c with killed := true }

/-- Calls are taken out of `pending`. -/
def take (c : Child) (these : ℕ → Bool) (outcome : Outcome) : Child :=
  { c with
    pending := c.pending.filter (! these ·)
    taken := c.taken ++ (c.pending.filter these).map (·, outcome) }

/-- **What happens next.** -/
inductive Step (cap : ℕ) : Child → Child → Prop where
  | submits {c c' : Child} {payload : Option ℕ} (h : c.submit cap payload = some c') :
      Step cap c c'
  | sends {c : Child} {call : ℕ × ℕ} (h : call ∈ c.sending)
      (hfits : frameSize call.2 call.1 ≤ cap) : Step cap c (c.sent call)
  /-- The encoder refuses the frame, or the pipe fails or stays full. -/
  | sendFails {c : Child} {call : ℕ × ℕ} (h : call ∈ c.sending) : Step cap c (c.kill.sent call)
  | onFrame {c : Child} {cid : ℕ} (h : c.dead = false) : Step cap c (c.take (· == cid) .frame)
  | expire {c : Child} {cids : List ℕ} : Step cap c (c.take (cids.contains ·) .timedOut)
  | kills {c : Child} : Step cap c c.kill
  | finish {c : Child} (h : c.dead = false) :
      Step cap c { c.take (fun _ => true) .died with dead := true }
  | completes {c : Child} {x : ℕ × Outcome} (h : x ∈ c.taken) :
      Step cap c { c with taken := c.taken.erase x, completed := c.completed ++ [x] }

def Reachable (cap : ℕ) : Child → Prop := Relation.ReflTransGen (Step cap) {}

end Child

end Pydeno.Isolated.ToolProcess
