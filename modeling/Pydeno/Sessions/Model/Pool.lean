import Pydeno.Wire.Model.Python
/-!
# The session pool

`SessionPool` of `_pool.py`, as one of its sessions sees it: the entry that
the map has for the session and those it had before, the session's two keys in
the store, and what the pool has done so far.

Entries are numbered as they are made, and so are sandboxes. A clock counts
leases that begin and `drop` calls that begin or return, so that one can say
which came first.
-/

namespace Pydeno.Sessions

/-! ## The store -/

/-- **A journal**: the counter it is bound to, the lease that dumped it, and how
many journals of the session had been written before. -/
structure Journal where
  counter : ℕ
  lease : ℕ
  number : ℕ
  deriving Repr, DecidableEq

/-- `_bound`: what a signature is bound to besides the journal. -/
def bound (owner session : List ℕ) (counter : ℕ) : List ℕ :=
  owner ++ Wire.ascii ":" ++ session ++ Wire.ascii ":" ++ Wire.ascii (toString counter)

/-- `_ID`: no colon and no control character, 1 to 256 characters. -/
def checkId (id : List ℕ) : Bool :=
  (0 < id.length && id.length ≤ 256) &&
    id.all fun c => c ≠ 58 && 32 ≤ c && c ≠ 127

/-- **A value of the store**: an envelope with a counter and a journal signed
for an owner and a session under that counter, or the text of a counter. -/
inductive Value where
  | journal (owner session : List ℕ) (journal : Journal)
  | text (digits : List ℕ)
  deriving Repr, DecidableEq

/-! ## Entries -/

/-- **A sandbox**: the entry it was made for, and the journal it was restored
from, if any. -/
structure Sandbox where
  entry : ℕ
  number : ℕ
  origin : Option Journal
  deriving Repr, DecidableEq

/-- **`_Entry`.** The lock has the number of the lease that holds it. `quiet`
is set while no `_persist` is in progress; `droppedAt` is when the entry was
dropped. -/
structure Entry where
  lock : Option ℕ
  sandbox : Option Sandbox
  counter : ℕ
  gone : Bool
  dropped : Bool
  barrier : Bool
  quiet : Bool
  droppedAt : ℕ
  deriving Repr, DecidableEq

/-- A new entry. -/
def Entry.new : Entry where
  lock := none
  sandbox := none
  counter := 0
  gone := false
  dropped := false
  barrier := false
  quiet := true
  droppedAt := 0

/-- What stands for an entry that was not made yet. -/
def Entry.blank : Entry := { new with gone := true }

/-- **A `drop` call that returned**: when it was called, and when it
returned. -/
structure Drop where
  called : ℕ
  returned : ℕ
  deriving Repr, DecidableEq

/-- **A restored session**: the value it was restored from, and the last
journal that had been stored with its counter. -/
structure Restored where
  value : Value
  saved : Option Journal
  deriving Repr, DecidableEq

/-- **A session that `get` returned**, and the drops that had returned. -/
structure Returned where
  sandbox : Sandbox
  drops : List Drop
  deriving Repr, DecidableEq

/-- **A delete by a write of a dropped entry**: when the entry was dropped, the
value deleted, and the drops that had returned. -/
structure Deleted where
  droppedAt : ℕ
  value : Option Value
  drops : List Drop
  deriving Repr, DecidableEq

/-- **The pool, for one session.** `ever` are the values that were ever stored,
under any key; `saved` is the journal of the last `_write` that succeeded. -/
structure Pool where
  entries : ℕ → Entry
  nextEntry : ℕ
  current : Option ℕ
  closed : Bool
  dead : List Sandbox
  nextSandbox : ℕ
  journal : Option Value
  counter : ℕ
  ever : List Value
  written : ℕ
  clock : ℕ
  saved : Option Journal
  drops : List Drop
  restored : List Restored
  returned : List Returned
  deleted : List Deleted

namespace Pool

def new : Pool where
  entries := fun _ => .blank
  nextEntry := 0
  current := none
  closed := false
  dead := []
  nextSandbox := 0
  journal := none
  counter := 0
  ever := []
  written := 0
  clock := 0
  saved := none
  drops := []
  restored := []
  returned := []
  deleted := []

/-- An entry is written to. -/
def modify (P : Pool) (e : ℕ) (f : Entry → Entry) : Pool :=
  { P with entries := Function.update P.entries e (f (P.entries e)) }

/-- An entry takes its place in the map. -/
def add (P : Pool) (entry : Entry) : Pool :=
  { P with
    entries := Function.update P.entries P.nextEntry entry
    nextEntry := P.nextEntry + 1
    current := some P.nextEntry }

/-- `entry.lock.acquire()` succeeds: a lease begins. -/
def acquire (P : Pool) (e : ℕ) : Pool :=
  { P.modify e ({ · with lock := some P.clock }) with clock := P.clock + 1 }

/-- `entry.lock.release()`. -/
def release (P : Pool) (e : ℕ) : Pool := P.modify e ({ · with lock := none })

/-- `entry.mark_gone()`. -/
def markGone (P : Pool) (e : ℕ) : Pool := P.modify e ({ · with gone := true })

/-- `entry.sandbox = None`. -/
def clearSandbox (P : Pool) (e : ℕ) : Pool := P.modify e ({ · with sandbox := none })

/-- `_forget`. -/
def forget (P : Pool) (e : ℕ) : Pool :=
  { P.markGone e with current := if P.current = some e then none else P.current }

/-- `_evict`. -/
def evict (P : Pool) (e : ℕ) : Pool := (P.forget e).clearSandbox e

end Pool

end Pydeno.Sessions
