import Mathlib
/-!
# The limiter of the prelude

`release`, `issue` and `track` of `_prelude`, which hold back tool calls past
`call_limit`. Wrapped calls are numbered as they are made. The underlying call
runs guest code (it reads its arguments), which may make further wrapped calls
before it returns a promise or throws: `applying` are the underlying calls on the
stack, the innermost first. A promise settles by running `release`, with nothing
on the stack.
-/

namespace Pydeno.Agent

/-- **The limiter**, with the wrapped calls made so far and those whose underlying
call was issued. -/
structure Limiter where
  active : ℕ
  /-- The linked list from `head` to `tail`. -/
  queue : List ℕ
  applying : List ℕ
  promised : List ℕ
  made : List ℕ
  issued : List ℕ
  deriving DecidableEq

namespace Limiter

def new : Limiter := ⟨0, [], [], [], [], []⟩

/-- The underlying calls that have not settled. -/
def unsettled (s : Limiter) : List ℕ := s.applying ++ s.promised

/-- `issue`, up to where the underlying call runs. -/
def issue (s : Limiter) (call : ℕ) : Limiter :=
  { s with
    active := s.active + 1
    applying := call :: s.applying
    issued := s.issued ++ [call] }

section

variable (limit : ℕ)

/-- `release`. -/
def release (s : Limiter) : Limiter :=
  let s := { s with active := s.active - 1 }
  match s.queue with
  | [] => s
  | next :: rest => if s.active < limit then issue { s with queue := rest } next else s

/-- `track`: a wrapped call. -/
def track (s : Limiter) : Limiter :=
  let call := s.made.length
  let s := { s with made := s.made ++ [call] }
  if s.active < limit then s.issue call else { s with queue := s.queue ++ [call] }

/-- **What happens next.** -/
inductive Step : Limiter → Limiter → Prop where
  | calls {s : Limiter} : Step s (s.track limit)
  /-- The innermost underlying call returns a promise, -/
  | returns {s : Limiter} {call : ℕ} {rest : List ℕ} (happlying : s.applying = call :: rest) :
      Step s { s with applying := rest, promised := call :: s.promised }
  /-- or throws. -/
  | throws {s : Limiter} {call : ℕ} {rest : List ℕ} (happlying : s.applying = call :: rest) :
      Step s (release limit { s with applying := rest })
  | settles {s : Limiter} {call : ℕ} (happlying : s.applying = []) (hcall : call ∈ s.promised) :
      Step s (release limit { s with promised := s.promised.erase call })

def Reachable : Limiter → Prop := Relation.ReflTransGen (Step limit) .new

end

end Limiter

end Pydeno.Agent
