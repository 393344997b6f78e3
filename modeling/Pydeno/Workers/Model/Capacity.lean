import Pydeno.Lib.Dict
import Pydeno.Lib.Interleaving
/-!
# Worker capacity

`_WorkerCapacity` of `_sandbox_pool.py`, and the ways through it: `_Core.new`
and `_Core.fill`, `AsyncSandboxPool._new` and `_fill`, and the replacement of a
session's worker through `hand_over` (`_replace` of the front doors). Whatever
is done under the pool's lock, or between two awaits, is one step. Processes
exit at any time.

A process is named by the number of its start. What a start has brought up in a
slot before it has reported is kept beside the slot's value (`spawned`): the
code learns of the process only when the start is over.
-/

namespace Pydeno.Workers

/-! ## The slots -/

/-- The value of a slot: `None`, a process handle, or a `_Handover`. -/
inductive Held where
  | reserved
  | proc (p : ℕ)
  | handover (p : ℕ)
  deriving Repr, DecidableEq

/-- A slot, with the process that a start in it has brought up. -/
structure Slot where
  held : Held
  spawned : Option ℕ
  deriving Repr, DecidableEq

/-- **A pool.** `exited` are the processes that have exited, `nextProc` and
`nextToken` the next names. -/
structure Pool where
  maximum : Option ℕ
  size : ℕ
  workers : Dict ℕ Slot
  nextToken : ℕ
  exited : List ℕ
  nextProc : ℕ
  ready : List ℕ
  starting : ℤ
  waiters : ℤ
  closed : Bool

def Pool.new (maximum : Option ℕ) (size : ℕ) : Pool where
  maximum := maximum
  size := size
  workers := .empty
  nextToken := 0
  exited := []
  nextProc := 0
  ready := []
  starting := 0
  waiters := 0
  closed := false

/-- `proc is None or proc.poll() is None`; a `_Handover` never polls as
exited. -/
def Held.counts (exited : List ℕ) : Held → Bool
  | .reserved => true
  | .proc p => p ∉ exited
  | .handover _ => true

namespace Pool

/-- `live`: slots whose process has exited are dropped. -/
def live (P : Pool) : Pool :=
  { P with workers := P.workers.filter fun e => e.2.held.counts P.exited }

/-- `available` -/
def available (P : Pool) : Bool × Pool :=
  match P.maximum with
  | none => (true, P)
  | some m => (P.live.workers.entries.length < m, P.live)

/-- `hand_over` -/
def handOver (P : Pool) (p : ℕ) : Option ℕ × Pool :=
  match P.workers.entries.find? fun e => e.2.held = .proc p with
  | some (token, slot) =>
    (some token, { P with workers := P.workers.set token { slot with held := .handover p } })
  | none => (none, P)

/-- `replacement_pending` -/
def replacementPending (P : Pool) (token : ℕ) : Bool :=
  match P.workers.get? token with
  | some ⟨.handover p, _⟩ => p ∉ P.exited
  | _ => false

/-- `release`: the slot of an abandoned hand-over goes back to the old process
while that one lives. -/
def release (P : Pool) (token : ℕ) : Pool :=
  match P.workers.get? token with
  | some ⟨.handover p, spawned⟩ =>
    if p ∉ P.exited then { P with workers := P.workers.set token ⟨.proc p, spawned⟩ }
    else { P with workers := P.workers.erase token }
  | _ => { P with workers := P.workers.erase token }

/-- `reserve` -/
def reserve (P : Pool) : Pool :=
  { P with
    nextToken := P.nextToken + 1
    workers :=
      if P.maximum.isSome then P.workers.set P.nextToken ⟨.reserved, none⟩ else P.workers }

/-- A start in the slot brings up a process. -/
def spawn (P : Pool) (token : ℕ) (held : Held) : Pool :=
  { P with
    nextProc := P.nextProc + 1
    workers := P.workers.set token ⟨held, some P.nextProc⟩ }

/-- `capacity.workers[token] = rt._proc` -/
def keep (P : Pool) (token p : ℕ) : Pool :=
  { P with workers := P.workers.set token ⟨.proc p, none⟩ }

end Pool

/-! ## The ways through the pool -/

/-- **Where a caller or a filler is.** `own` callers bring a factory of their
own, so they cannot use a ready worker. -/
inductive Part where
  /-- A checkout begins, or `new` is called without a token. -/
  | arrives (own : Bool)
  | asks (own : Bool)
  /-- A ready worker that is no use is being closed. -/
  | retires (own : Bool) (p : ℕ)
  | fills
  /-- A session whose worker `p` is to be replaced. -/
  | swaps (p : ℕ)
  /-- The slot is handed over; the old worker is being killed. -/
  | handed (token p : ℕ)
  /-- `new` waits for the old worker to exit. -/
  | waits (token p : ℕ)
  /-- The factory, or the start task, is running; `old` is the worker it
  replaces. -/
  | starts (token : ℕ) (old : Option ℕ) (filler : Bool)
  | filled (p : ℕ)
  | has (p : ℕ)
  | done
  deriving Repr, DecidableEq

/-- Where a start leads that fails. -/
def Part.afterFailure (filler : Bool) : Part := if filler then .fills else .done

/-- The books of a start that is over. -/
def Pool.started (P : Pool) (filler : Bool) : Pool :=
  if filler then { P with starting := P.starting - 1 } else P

section

-- whether the pool is an `AsyncSandboxPool`
variable (async : Bool)

/-- **One step of a caller or of a filler.** A caller may give up (be
interrupted or cancelled, run out of time, find the pool closed) wherever it
waits. -/
inductive Step : Pool → Part → Pool → Part → Prop where
  /-- A checkout takes a ready runtime, past those that are closed or have exited, -/
  | pops {P : Pool} {p : ℕ} {dead rest : List ℕ} (hopen : P.closed = false)
      (hready : P.ready = dead ++ p :: rest) (halive : p ∉ P.exited) :
      Step P (.arrives false) { P with ready := rest } (.has p)
  /-- or finds none among them. -/
  | popsNone {P : Pool} (hopen : P.closed = false) :
      Step P (.arrives false) { P with ready := [] } (.arrives false)
  | arrives {P : Pool} {own : Bool} :
      Step P (.arrives own) { P with waiters := P.waiters + 1 } (.asks own)
  | reserves {P : Pool} {own : Bool} (hopen : P.closed = false)
      (h : P.available.1 = true) :
      Step P (.asks own) { P.available.2.reserve with waiters := P.waiters - 1 }
        (.starts P.nextToken none false)
  | takes {P : Pool} {p : ℕ} {rest : List ℕ} (hopen : P.closed = false)
      (h : P.available.1 = false) (hready : P.ready = p :: rest) (halive : p ∉ P.exited) :
      Step P (.asks false)
        { P.available.2 with ready := rest, waiters := P.waiters - 1 } (.has p)
  | retires {P : Pool} {own : Bool} {p : ℕ} {rest : List ℕ} (hopen : P.closed = false)
      (h : P.available.1 = false) (hready : P.ready = p :: rest) :
      Step P (.asks own) { P.available.2 with ready := rest } (.retires own p)
  | retired {P : Pool} {own : Bool} {p : ℕ} : Step P (.retires own p) P (.asks own)
  | polls {P : Pool} {own : Bool} (hopen : P.closed = false) (h : P.available.1 = false)
      (hready : P.ready = []) : Step P (.asks own) P.available.2 (.asks own)
  | givesUp {P : Pool} {own : Bool} :
      Step P (.asks own) { P with waiters := P.waiters - 1 } .done
  | interrupted {P : Pool} {own : Bool} {p : ℕ} :
      Step P (.retires own p) { P with waiters := P.waiters - 1 } .done
  | fills {P : Pool} (hopen : P.closed = false)
      (hroom : (P.ready.length : ℤ) + P.starting < P.size) (hwaiters : P.waiters = 0)
      (h : P.available.1 = true) :
      Step P .fills { P.available.2.reserve with starting := P.starting + 1 }
        (.starts P.nextToken none true)
  | fillerPolls {P : Pool} : Step P .fills P.available.2 .fills
  | fillerEnds {P : Pool} : Step P .fills P .done
  | hands {P P' : Pool} {p token : ℕ} (h : P.handOver p = (some token, P')) :
      Step P (.swaps p) P' (.handed token p)
  | noSlot {P P' : Pool} {p : ℕ} (h : P.handOver p = (none, P')) :
      Step P (.swaps p) P' (.arrives true)
  | killFails {P : Pool} {token p : ℕ} : Step P (.handed token p) (P.release token) .done
  | killed {P : Pool} {token p : ℕ} :
      Step P (.handed token p) { P with waiters := P.waiters + 1 } (.waits token p)
  | abandons {P : Pool} {token p : ℕ} :
      Step P (.waits token p) { P.release token with waiters := P.waiters - 1 } .done
  | oldExited {P : Pool} {token p : ℕ} (h : P.replacementPending token = false) :
      Step P (.waits token p) { P with waiters := P.waiters - 1 }
        (.starts token (some p) false)
  | spawns {P : Pool} {token : ℕ} {old : Option ℕ} {filler : Bool} {held : Held}
      (h : P.workers.get? token = some ⟨held, none⟩) :
      Step P (.starts token old filler) (P.spawn token held) (.starts token old filler)
  | succeeds {P : Pool} {token p : ℕ} {old : Option ℕ} {filler : Bool} {held : Held}
      (h : P.workers.get? token = some ⟨held, some p⟩) :
      Step P (.starts token old filler) ((P.keep token p).started filler)
        (if filler then .filled p else .has p)
  /-- A start that fails leaves no live process; the async pool gives the slot
  back only if there was none at all. -/
  | fails {P : Pool} {token : ℕ} {old : Option ℕ} {filler : Bool} {slot : Slot}
      (h : P.workers.get? token = some slot) (hnone : ∀ p ∈ slot.spawned, p ∈ P.exited)
      (hasync : async = true → slot.spawned = none) :
      Step P (.starts token old filler) ((P.release token).started filler)
        (.afterFailure filler)
  /-- In the async pool the process of a failed start stays counted. -/
  | failsLate {P : Pool} {token p : ℕ} {old : Option ℕ} {filler : Bool} {held : Held}
      (hasync : async = true) (h : P.workers.get? token = some ⟨held, some p⟩) :
      Step P (.starts token old filler) ((P.keep token p).started filler)
        (.afterFailure filler)
  | publishes {P : Pool} {p : ℕ} (hopen : P.closed = false) :
      Step P (.filled p) { P with ready := P.ready ++ [p] } .fills
  | tooLate {P : Pool} {p : ℕ} : Step P (.filled p) P .done

/-- Callers and fillers join at any time. -/
inductive Join : Pool → Part → Prop where
  | checkout {P : Pool} (own : Bool) : Join P (.arrives own)
  | filler {P : Pool} : Join P .fills
  | swap {P : Pool} (p : ℕ) : Join P (.swaps p)

/-- A process exits, someone reads the statistics, the pool is closed. -/
inductive Env : Pool → Pool → Prop where
  | exits {P : Pool} (p : ℕ) : Env P { P with exited := p :: P.exited }
  | stats {P : Pool} : Env P P.available.2
  | closes {P : Pool} : Env P { P with closed := true, ready := [] }

/-- The states of a pool with `max_workers = m`, over every interleaving. -/
def PoolReachable (m size : ℕ) : Interleaving.Sys Pool Part → Prop :=
  Interleaving.Reachable (Step async) Join Env (.new (some m) size)

end

end Pydeno.Workers
