import Pydeno.Lib.Dict
/-!
# The buffer budget

`Budget` of `capped_allocator.rs` with the allocator that charges fixed-length
buffers to it, and `op_pydeno_buffer_charge` of `ops.rs`, which charges
resizable ones. A resizable buffer is named by a number; the table holds it
weakly, by the id that it carries as a private symbol. What V8 has collected is
`collected`.

`size` is what the last charge of a buffer that was granted asked for, and
`saturated` says that a release has ever asked for more bytes than were live.
-/

namespace Pydeno.Runtime

/-! ## The budget -/

/-- `usize::MAX`, of a 64-bit host. -/
def usizeMax : ℕ := 2 ^ 64 - 1

/-- `SWEEP_START`. -/
def sweepStart : ℕ := 1024

/-- `MAX_TRACKED`. -/
def maxTracked : ℕ := 2 ^ 22

/-- **The budget and what is charged to it.** `fixed` are the live backing stores
of the allocator with their lengths, `entries` the table of resizable buffers:
by id, the buffer and the bytes it holds. -/
structure Buffers where
  cap : ℕ
  live : ℕ
  refused : Bool
  afterCallback : Bool
  saturated : Bool
  fixed : Dict ℕ ℕ
  nextStore : ℕ
  entries : Dict ℕ (ℕ × ℕ)
  nextId : ℕ
  sweepAt : ℕ
  tag : ℕ → Option ℕ
  size : ℕ → ℕ
  collected : List ℕ

namespace Buffers

/-- `Budget::new`, with an empty table. -/
def new (cap : ℕ) : Buffers where
  cap := cap
  live := 0
  refused := false
  afterCallback := false
  saturated := false
  fixed := .empty
  nextStore := 0
  entries := .empty
  nextId := 0
  sweepAt := sweepStart
  tag := fun _ => none
  size := fun _ => 0
  collected := []

/-- `Budget::take_refusal`. -/
def takeRefusal (s : Buffers) : Buffers × Bool :=
  ({ s with refused := false, afterCallback := s.refused || s.afterCallback }, s.refused)

/-- `usize::checked_add`. -/
def checkedAdd (a b : ℕ) : Option ℕ := if a + b ≤ usizeMax then some (a + b) else none

/-- **`Budget::reserve`.** -/
def reserve (s : Buffers) (len : ℕ) : Option Buffers :=
  ((checkedAdd s.live len).filter (· ≤ s.cap)).map fun total => { s with live := total }

/-- **`Budget::release`.** -/
def release (s : Buffers) (len : ℕ) : Buffers :=
  { s with live := s.live - len, saturated := s.saturated || s.live < len }

/-! ## The table -/

/-- V8 collects buffers. -/
def collect (s : Buffers) (buffers : List ℕ) : Buffers :=
  { s with collected := buffers ++ s.collected }

/-- **`ResizableBuffers::sweep`.** -/
def sweep (s : Buffers) : Buffers :=
  let entries := s.entries.filter fun e => e.2.1 ∉ s.collected
  { ((s.entries.entries.filter fun e => e.2.1 ∈ s.collected).foldl (fun s e => s.release e.2.2) s) with
    entries := entries
    sweepAt := max (entries.entries.length * 2) sweepStart }

/-! ## Fixed-length buffers -/

/-- `layout`: `Layout::from_size_align(len.max(1), 16)`. -/
def layout (len : ℕ) : Bool := max len 1 ≤ 2 ^ 63 - 1 - 15

/-- **`reserve_or_sweep`.** `hooked` says that the sweeper is there and can
borrow the table. -/
def reserveOrSweep (s : Buffers) (len : ℕ) (hooked : Bool) : Buffers × Bool :=
  let followsCallback := s.afterCallback
  let s := { s with refused := false, afterCallback := false }
  match s.reserve len with
  | some s => (s, true)
  | none =>
    let s := if hooked then s.sweep else s
    match s.reserve len with
    | some s => (s, true)
    | none => (if followsCallback then s else { s with refused := true }, false)

/-- **`take`.** `mapped` says that the host has the memory. -/
def take (s : Buffers) (len : ℕ) (hooked mapped : Bool) : Buffers × Bool :=
  if layout len then
    let r := s.reserveOrSweep len hooked
    if r.2 then
      if mapped then
        ({ r.1 with fixed := r.1.fixed.set r.1.nextStore len, nextStore := r.1.nextStore + 1 }, true)
      else (r.1.release len, false)
    else (r.1, false)
  else (s, false)

/-- **`free`** of a backing store; of a null pointer it does nothing. -/
def free (s : Buffers) (store : ℕ) : Buffers :=
  match s.fixed.get? store with
  | some len => { s.release len with fixed := s.fixed.erase store }
  | none => s

/-! ## Resizable buffers -/

/-- A double that the bridge passes. -/
inductive Raw where
  | finite (q : ℚ)
  | notFinite
  deriving DecidableEq

/-- `byte_count`. -/
def byteCount : Raw → Option ℕ
  | .finite q => if 0 ≤ q ∧ q.den = 1 ∧ q ≤ 2 ^ 64 then some (min q.num.toNat usizeMax) else none
  | .notFinite => none

/-- `committed_pages`. -/
def committedPages (page : ℕ+) (bytes : ℕ) : ℕ :=
  if bytes = 0 then 0 else min ((bytes + page - 1) / page * page) usizeMax

/-- The end of the charge: the entry is written, or removed. -/
def store (s : Buffers) (id bytes : ℕ) : Buffers :=
  if bytes = 0 then { s with entries := s.entries.erase id }
  else
    match s.entries.get? id with
    | some entry => { s with entries := s.entries.set id (entry.1, bytes) }
    | none => s

/-- The charge of a tracked buffer. V8 may collect `gc` before the sweep. -/
def setBytes (s : Buffers) (id bytes : ℕ) (gc : List ℕ) : Buffers × Bool :=
  let current := (s.entries.get? id).elim 0 Prod.snd
  if current < bytes then
    match s.reserve (bytes - current) with
    | some s => (s.store id bytes, true)
    | none =>
      let s := (s.collect gc).sweep
      match s.reserve (bytes - current) with
      | some s => (s.store id bytes, true)
      | none => (s, false)
  else ((s.release (current - bytes)).store id bytes, true)

/-- Room for one more entry, and whether there is none. -/
def makeRoom (s : Buffers) (gc : List ℕ) : Buffers × Bool :=
  let s := if s.sweepAt ≤ s.entries.entries.length then s.sweep else s
  let s := if maxTracked ≤ s.entries.entries.length then (s.collect gc).sweep else s
  (s, maxTracked ≤ s.entries.entries.length)

/-- A buffer gets an id and an entry. -/
def track (s : Buffers) (b : ℕ) : Buffers :=
  { s with
    nextId := s.nextId + 1
    tag := Function.update s.tag b (some (s.nextId + 1))
    entries := s.entries.set (s.nextId + 1) (b, 0) }

/-- The id under which a buffer is tracked. -/
def known (s : Buffers) (b : ℕ) : Option ℕ :=
  (s.tag b).filter fun id => (s.entries.get? id).isSome

/-- What was granted is the buffer's size. -/
def granted (b bytes : ℕ) (r : Buffers × Bool) : Buffers × Bool :=
  if r.2 then ({ r.1 with size := Function.update r.1.size b bytes }, true) else r

/-- **`op_pydeno_buffer_charge`.** `gc` is what V8 collects when the table is
full, `gc'` what it collects when the cap is hit. -/
def charge (page : ℕ+) (s : Buffers) (b : ℕ) (raw : Raw) (gc gc' : List ℕ) : Buffers × Bool :=
  match byteCount raw with
  | none => (s, false)
  | some bytes =>
    granted b bytes <|
      match s.known b with
      | some id => s.setBytes id (committedPages page bytes) gc'
      | none =>
        let r := s.makeRoom gc
        if r.2 then (r.1, false)
        else (r.1.track b).setBytes (r.1.nextId + 1) (committedPages page bytes) gc'

end Buffers

/-! ## Runs -/

/-- **What may happen.** -/
inductive Event where
  | allocate (len : ℕ) (hooked mapped : Bool)
  | free (store : ℕ)
  | charge (b : ℕ) (raw : Buffers.Raw) (gc gc' : List ℕ)
  | collect (buffers : List ℕ)
  | sweep
  | takeRefusal
  deriving DecidableEq

/-- What an event does, and whether it is granted. -/
def Buffers.apply (page : ℕ+) (s : Buffers) : Event → Buffers × Bool
  | .allocate len hooked mapped => s.take len hooked mapped
  | .free store => (s.free store, true)
  | .charge b raw gc gc' => s.charge page b raw gc gc'
  | .collect buffers => (s.collect buffers, true)
  | .sweep => (s.sweep, true)
  | .takeRefusal => (s.takeRefusal.1, true)

/-- A buffer that is being charged is not collected. -/
def Event.Valid (s : Buffers) : Event → Prop
  | .charge b _ gc gc' => b ∉ s.collected ∧ b ∉ gc ∧ b ∉ gc'
  | _ => True

/-- **The states of a run**, from an empty budget. -/
inductive Charged (page : ℕ+) (cap : ℕ) : Buffers → Prop where
  | new : Charged page cap (.new cap)
  | apply {s : Buffers} (h : Charged page cap s) (event : Event) (hvalid : event.Valid s) :
      Charged page cap (s.apply page event).1

end Pydeno.Runtime
