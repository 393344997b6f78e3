import Pydeno.Lib.Interleaving
import Pydeno.Sessions.Model.Pool
/-!
# The tasks of a session pool

`get`, `release`, `drop`, `close` and eviction of `_pool.py` as tasks of one
event loop. A task runs from one await to the next in one step. A store
operation takes effect in a step of its own, some time after it was called and
some time before its caller resumes; it may fail, and the caller may be
cancelled, at any time in between.

`Rules` says what may happen in a run besides.
-/

namespace Pydeno.Sessions

/-- **What a run may contain.** -/
structure Rules where
  /-- A `release` by a task that does not hold the lease. -/
  stray : Bool
  /-- A `get` that is cancelled after its inner `acquire` has got the lock. -/
  losing : Bool
  /-- A `drop` that is called while a write of a dropped entry is in
  progress. -/
  overlapping : Bool
  /-- A `drop` that fails or is cancelled. -/
  aborting : Bool
  /-- A `close`. -/
  closing : Bool
  /-- Someone who puts old values under the journal key. -/
  tampering : Bool
  /-- A lease that outlives its session: a release that finds it dropped, leased
  afresh or not leased, or the pool closed. -/
  outliving : Bool
  /-- A write that fails or is cancelled when its journal has been stored and its
  counter has not. -/
  cutting : Bool
  /-- A `drop` that is called while another is in progress. -/
  crossing : Bool
  deriving Repr, DecidableEq

/-! ## Where a task is -/

/-- Who has called `_persist`. -/
inductive Who where
  | release
  | stray
  | prepare
  | close
  deriving Repr, DecidableEq

/-- **Where `_persist` is.** `spent` says that it stores the journal without
state of `_drop_state`. -/
inductive Writing where
  | readsCounter (counter : ℕ)
  | gotCounter (counter stored : ℕ)
  | dumps (counter : ℕ)
  | closesSpent (counter : ℕ)
  | setsJournal (counter : ℕ) (spent : Bool)
  | journalSet (counter : ℕ) (spent : Bool) (j : Journal)
  | setsCounter (counter : ℕ) (spent : Bool) (j : Journal)
  | counterSet (counter : ℕ) (spent : Bool) (j : Journal)
  | deletesJournal (spent : Bool)
  | journalDeleted (spent : Bool)
  deriving Repr, DecidableEq

/-- The journal has been stored and its counter has not. -/
def Writing.cut : Writing → Bool
  | .journalSet _ _ _ => true
  | .setsCounter _ _ _ => true
  | _ => false

/-- How a step of `_persist` ends: it goes on, returns or raises. -/
inductive Written where
  | goes (w : Writing)
  | returns
  | raises
  deriving Repr, DecidableEq

/-- **Where `_prepare` is**, `_restore` included. -/
inductive Preparing where
  | checks (s : Sandbox)
  | checked (s : Sandbox) (stored : ℕ)
  | readsFloor (counter : ℕ)
  | readsJournal (floor : ℕ)
  | gotJournal (floor : ℕ) (raw : Option Value)
  | creates
  | loads (floor : ℕ) (owner session : List ℕ) (j : Journal)
  | discards
  deriving Repr, DecidableEq

/-- **Where `drop` is.** -/
inductive Dropping where
  | closesSandbox
  | waitsQuiet
  | readsCounter
  | gotCounter (stored : ℕ)
  | deletes (counter : ℕ)
  | setsCounter (counter : ℕ)
  | counterSet
  deriving Repr, DecidableEq

/-- Where `close` is with an entry: it looks whether the entry is being stored,
waits for its `quiet` event, or the event was set and `close` has not resumed. -/
inductive Closing where
  | looks
  | waits
  | woken
  deriving Repr, DecidableEq

/-- **Where a task is**: with the entry it works on and the number of its
lease, where it has one. -/
inductive Task where
  /-- `get`, at the top of its loop. -/
  | looks
  /-- `_acquire` waits, -/
  | waits (e : ℕ)
  /-- or has the lock and has not resumed. -/
  | acquired (e n : ℕ)
  | prepares (e n : ℕ) (p : Preparing)
  /-- `get` has returned. -/
  | leased (e n : ℕ) (s : Sandbox)
  | writes (who : Who) (e n : ℕ) (s : Sandbox) (w : Writing)
  | releaseBegins
  | dropBegins
  | drops (b n : ℕ) (old : Option ℕ) (p : Dropping)
  | closeBegins
  | closeMarks
  | closeWaits (e : ℕ) (k : Closing)
  | closeClears (e : ℕ)
  | ended
  deriving Repr, DecidableEq

namespace Pool

/-! ## Pieces of `get` -/

/-- `get` returns the entry's sandbox. -/
def lease (P : Pool) (e n : ℕ) (s : Sandbox) : Pool × Task :=
  ({ P with returned := P.returned ++ [⟨s, P.drops⟩] }, .leased e n s)

/-- The end of `_prepare`: an entry without a sandbox gets one. -/
def ready (P : Pool) (e n : ℕ) : Pool × Task :=
  match (P.entries e).sandbox with
  | some s => P.lease e n s
  | none => (P, .prepares e n (.readsFloor (P.entries e).counter))

/-- What follows once the lock is held. -/
def enter (P : Pool) (e n : ℕ) : Pool × Task :=
  if (P.entries e).gone then (P.release e, .looks)
  else
    match (P.entries e).sandbox with
    | some s => (P, .prepares e n (.checks s))
    | none => (P, .prepares e n (.readsFloor (P.entries e).counter))

/-- `_persist` begins. -/
def persist (P : Pool) (who : Who) (e n : ℕ) (s : Sandbox) : Pool × Task :=
  (P.modify e ({ · with quiet := false }),
    .writes who e n s (.readsCounter ((P.entries e).counter + 1)))

/-- `_prepare` has read the stored counter. -/
def afterCheck (P : Pool) (e n : ℕ) (s : Sandbox) (stored : ℕ) : Pool × Task :=
  if (P.entries e).gone then (P.release e, .looks)
  else if (P.entries e).counter < stored then (P.clearSandbox e).ready e n
  else if s ∈ P.dead then P.persist .prepare e n s
  else P.ready e n

/-- A new sandbox, made or restored, is put into the entry, or closed again if
the entry is gone. -/
def install (P : Pool) (e n : ℕ) (origin : Option Journal) : Pool × Task :=
  let s : Sandbox := ⟨e, P.nextSandbox, origin⟩
  let P := { P with nextSandbox := P.nextSandbox + 1 }
  if (P.entries e).gone then (P, .prepares e n .discards)
  else (P.modify e ({ · with sandbox := some s })).lease e n s

/-- A sandbox is restored from a value of the store. -/
def restore (P : Pool) (e n : ℕ) (value : Value) (j : Journal) : Pool × Task :=
  let P' := (P.install e n (some j)).1
  if (P.entries e).gone then (P', (P.install e n (some j)).2)
  else ({ P' with restored := P'.restored ++ [⟨value, P.saved⟩] },
    (P.install e n (some j)).2)

/-- What `get` does when `_prepare` raises. -/
def prepareFails (P : Pool) (e : ℕ) : Pool :=
  (if (P.entries e).sandbox = none then P.forget e else P).release e

/-! ## Pieces of `release` -/

/-- `_release`, of the entry that the map has. -/
def releases (P : Pool) (who : Who) (e n : ℕ) : Pool × Task :=
  if (P.entries e).gone then (P.release e, .ended)
  else
    match (P.entries e).sandbox with
    | none => (P.release e, .ended)
    | some s => P.persist who e n s

/-- `_persist` has ended: its caller goes on. -/
def persisted (P : Pool) (who : Who) (e n : ℕ) (s : Sandbox) (returned : Bool) : Pool × Task :=
  let P := P.modify e ({ · with quiet := true })
  match who with
  | .release | .stray =>
    if returned ∧ (P.entries e).sandbox = some s ∧ s ∈ P.dead then
      ((P.clearSandbox e).release e, .ended)
    else (P.release e, .ended)
  | .prepare =>
    if returned then
      if (P.entries e).gone then (P.release e, .looks)
      else if (P.entries e).sandbox = some s then (P.clearSandbox e).ready e n
      else P.ready e n
    else (P.prepareFails e, .ended)
  | .close => (P, .closeClears e)

/-- A step of `_persist` in its caller. -/
def wrote (P : Pool) (who : Who) (e n : ℕ) (s : Sandbox) : Written → Pool × Task
  | .goes w => (P, .writes who e n s w)
  | .returns => P.persisted who e n s true
  | .raises => P.persisted who e n s false

/-- `_drop_state` has stored its journal, or found the session dropped. -/
def spend (P : Pool) (e : ℕ) : Pool := (P.clearSandbox e).forget e

/-- What `_persist_held` does once `_write` has returned. -/
def wroteAll (P : Pool) (e : ℕ) (spent : Bool) : Pool × Written :=
  if spent then (P.spend e, .raises) else (P, .returns)

/-! ## Pieces of `drop` -/

/-- The entry that `drop` replaces. -/
def replace (P : Pool) (e : ℕ) : Pool :=
  P.modify e fun x =>
    { x with dropped := true, droppedAt := P.clock, gone := true, sandbox := none }

/-- `drop` up to its first await: a barrier takes the session's place. -/
def barricade (P : Pool) : Pool :=
  let P' := match P.current with
    | some e => P.replace e
    | none => P
  { P'.add { Entry.new with barrier := true, lock := some P.clock } with
    clock := P.clock + 1 }

/-- The sandbox that `drop` closes. -/
def dropped (P : Pool) : Option Sandbox := P.current.bind fun e => (P.entries e).sandbox

/-- The end of `drop`. -/
def unbar (P : Pool) (b : ℕ) : Pool := (P.forget b).release b

end Pool

/-! ## Steps -/

section

variable (rules : Rules) (owner session : List ℕ)

/-- **A step of `_persist`** on an entry, for a lease and a sandbox. -/
inductive WriteStep (e n : ℕ) (s : Sandbox) : Pool → Writing → Pool → Written → Prop where
  /-- A store operation or the dump fails, or the task is cancelled. -/
  | fails {P : Pool} {w : Writing} (hcutting : rules.cutting = false → w.cut = false) :
      WriteStep e n s P w P .raises
  | reads {P : Pool} {c : ℕ} :
      WriteStep e n s P (.readsCounter c) P (.goes (.gotCounter c P.counter))
  | dropped {P : Pool} {c v : ℕ} (hdropped : (P.entries e).dropped = true) :
      WriteStep e n s P (.gotCounter c v) P .returns
  /-- Another pool has stored a newer journal (`StaleJournal`). -/
  | stale {P : Pool} {c v : ℕ} (hlive : (P.entries e).dropped = false)
      (hstale : (P.entries e).counter < v) :
      WriteStep e n s P (.gotCounter c v) (P.clearSandbox e) .raises
  | current {P : Pool} {c v : ℕ} (hlive : (P.entries e).dropped = false)
      (hcurrent : v ≤ (P.entries e).counter) :
      WriteStep e n s P (.gotCounter c v) P (.goes (.dumps c))
  | dumped {P : Pool} {c : ℕ} (hlive : (P.entries e).dropped = false) :
      WriteStep e n s P (.dumps c) P (.goes (.setsJournal c false))
  | dumpedLate {P : Pool} {c : ℕ} (hdropped : (P.entries e).dropped = true) :
      WriteStep e n s P (.dumps c) P .returns
  /-- The journal is over its cap (`_drop_state`). -/
  | tooLarge {P : Pool} {c : ℕ} :
      WriteStep e n s P (.dumps c) P (.goes (.closesSpent c))
  | spends {P : Pool} {c : ℕ} (hlive : (P.entries e).dropped = false) :
      WriteStep e n s P (.closesSpent c) { P with dead := s :: P.dead }
        (.goes (.setsJournal c true))
  | spendsLate {P : Pool} {c : ℕ} (hdropped : (P.entries e).dropped = true) :
      WriteStep e n s P (.closesSpent c) (P.spend e) .raises
  | setsJournal {P : Pool} {c : ℕ} {spent : Bool} :
      WriteStep e n s P (.setsJournal c spent)
        { P with
          journal := some (.journal owner session ⟨c, n, P.written⟩)
          ever := P.ever ++ [.journal owner session ⟨c, n, P.written⟩]
          written := P.written + 1 }
        (.goes (.journalSet c spent ⟨c, n, P.written⟩))
  | journalSet {P : Pool} {c : ℕ} {spent : Bool} {j : Journal}
      (hlive : (P.entries e).dropped = false) :
      WriteStep e n s P (.journalSet c spent j) P (.goes (.setsCounter c spent j))
  | journalSetLate {P : Pool} {c : ℕ} {spent : Bool} {j : Journal}
      (hdropped : (P.entries e).dropped = true) :
      WriteStep e n s P (.journalSet c spent j) P (.goes (.deletesJournal spent))
  | setsCounter {P : Pool} {c : ℕ} {spent : Bool} {j : Journal} :
      WriteStep e n s P (.setsCounter c spent j) { P with counter := c }
        (.goes (.counterSet c spent j))
  | counterSet {P : Pool} {c : ℕ} {spent : Bool} {j : Journal}
      (hlive : (P.entries e).dropped = false) :
      WriteStep e n s P (.counterSet c spent j)
        ({ P.modify e ({ · with counter := c }) with saved := some j }.wroteAll e spent).1
        ({ P.modify e ({ · with counter := c }) with saved := some j }.wroteAll e spent).2
  | counterSetLate {P : Pool} {c : ℕ} {spent : Bool} {j : Journal}
      (hdropped : (P.entries e).dropped = true) :
      WriteStep e n s P (.counterSet c spent j) (P.modify e ({ · with counter := c }))
        (.goes (.deletesJournal spent))
  | deletesJournal {P : Pool} {spent : Bool} :
      WriteStep e n s P (.deletesJournal spent)
        { P with
          journal := none
          deleted := P.deleted ++ [⟨(P.entries e).droppedAt, P.journal, P.drops⟩] }
        (.goes (.journalDeleted spent))
  | journalDeleted {P : Pool} {spent : Bool} :
      WriteStep e n s P (.journalDeleted spent) (P.wroteAll e spent).1
        (P.wroteAll e spent).2

/-- **A step of `_prepare`** on an entry, for a lease. -/
inductive PrepareStep (e n : ℕ) : Pool → Preparing → Pool → Task → Prop where
  | raises {P : Pool} {p : Preparing} : PrepareStep e n P p (P.prepareFails e) .ended
  | checks {P : Pool} {s : Sandbox} :
      PrepareStep e n P (.checks s) P (.prepares e n (.checked s P.counter))
  | checked {P : Pool} {s : Sandbox} {v : ℕ} :
      PrepareStep e n P (.checked s v) (P.afterCheck e n s v).1 (P.afterCheck e n s v).2
  | readsFloor {P : Pool} {c : ℕ} :
      PrepareStep e n P (.readsFloor c) P (.prepares e n (.readsJournal (max c P.counter)))
  | readsJournal {P : Pool} {floor : ℕ} :
      PrepareStep e n P (.readsJournal floor) P (.prepares e n (.gotJournal floor P.journal))
  | empty {P : Pool} {floor : ℕ} :
      PrepareStep e n P (.gotJournal floor none) (P.modify e ({ · with counter := floor }))
        (.prepares e n .creates)
  | opens {P : Pool} {floor : ℕ} {o i : List ℕ} {j : Journal} (hfloor : floor ≤ j.counter) :
      PrepareStep e n P (.gotJournal floor (some (.journal o i j))) P
        (.prepares e n (.loads floor o i j))
  | created {P : Pool} :
      PrepareStep e n P .creates (P.install e n none).1 (P.install e n none).2
  /-- The signature is checked against what this session's journal is bound
  to. -/
  | loaded {P : Pool} {floor : ℕ} {o i : List ℕ} {j : Journal}
      (hbound : bound o i j.counter = bound owner session j.counter) :
      PrepareStep e n P (.loads floor o i j)
        ((P.modify e ({ · with counter := j.counter })).restore e n (.journal o i j) j).1
        ((P.modify e ({ · with counter := j.counter })).restore e n (.journal o i j) j).2
  | discards {P : Pool} : PrepareStep e n P .discards (P.release e) .looks

/-- **A step of `drop`** with its barrier and the entry it replaced. -/
inductive DropStep (b n : ℕ) (old : Option ℕ) : Pool → Dropping → Pool → Task → Prop where
  | closed {P : Pool} :
      DropStep b n old P .closesSandbox P (.drops b n old .waitsQuiet)
  | quiet {P : Pool} (hquiet : ∀ e, old = some e → (P.entries e).quiet = true) :
      DropStep b n old P .waitsQuiet P (.drops b n old .readsCounter)
  | reads {P : Pool} :
      DropStep b n old P .readsCounter P (.drops b n old (.gotCounter P.counter))
  | got {P : Pool} {v : ℕ} :
      DropStep b n old P (.gotCounter v) P
        (.drops b n old (.deletes (old.elim v fun e => max v (P.entries e).counter)))
  | deletes {P : Pool} {c : ℕ} :
      DropStep b n old P (.deletes c) { P with journal := none }
        (.drops b n old (.setsCounter (c + 1)))
  | setsCounter {P : Pool} {c : ℕ} :
      DropStep b n old P (.setsCounter c) { P with counter := c } (.drops b n old .counterSet)
  | returns {P : Pool} :
      DropStep b n old P .counterSet
        { P.unbar b with drops := P.drops ++ [⟨n, P.clock⟩], clock := P.clock + 1 } .ended
  | aborts {P : Pool} {p : Dropping} (haborting : rules.aborting = true) :
      DropStep b n old P p (P.unbar b) .ended

/-- **One step of a task.** -/
inductive Step : Pool → Task → Pool → Task → Prop where
  /-- The pool is closed or full, or the task is cancelled. -/
  | gives {P : Pool} : Step P .looks P .ended
  | creates {P : Pool} (hopen : P.closed = false) (hnone : P.current = none) :
      Step P .looks (((P.add .new).acquire P.nextEntry).enter P.nextEntry P.clock).1
        (((P.add .new).acquire P.nextEntry).enter P.nextEntry P.clock).2
  | acquires {P : Pool} {e : ℕ} (hopen : P.closed = false) (hcurrent : P.current = some e)
      (hfree : (P.entries e).lock = none) :
      Step P .looks ((P.acquire e).enter e P.clock).1
        ((P.acquire e).enter e P.clock).2
  | queues {P : Pool} {e : ℕ} (hopen : P.closed = false) (hcurrent : P.current = some e) :
      Step P .looks P (.waits e)
  /-- The inner `acquire` gets the lock. -/
  | granted {P : Pool} {e : ℕ} (hfree : (P.entries e).lock = none) :
      Step P (.waits e) (P.acquire e) (.acquired e P.clock)
  | woken {P : Pool} {e : ℕ} (hgone : (P.entries e).gone = true) :
      Step P (.waits e) P .looks
  /-- `SessionBusy`, or the task is cancelled; the inner `acquire` is cancelled
  with it. -/
  | timesOut {P : Pool} {e : ℕ} : Step P (.waits e) P .ended
  | resumes {P : Pool} {e n : ℕ} :
      Step P (.acquired e n) (P.enter e n).1 (P.enter e n).2
  /-- The task is cancelled, and its inner `acquire` is done. -/
  | lost {P : Pool} {e n : ℕ} (hlosing : rules.losing = true) :
      Step P (.acquired e n) P .ended
  | prepares {P P' : Pool} {e n : ℕ} {p : Preparing} {c : Task}
      (h : PrepareStep owner session e n P p P' c) : Step P (.prepares e n p) P' c
  /-- The session-scoped release, or `release` by the task whose lease it is. -/
  | releases {P : Pool} {e e' n : ℕ} {s : Sandbox} (hcurrent : P.current = some e')
      (hbarrier : (P.entries e').barrier = false) (hlocked : (P.entries e').lock ≠ none)
      (hown : (P.entries e').sandbox = some s ∨ (e' = e ∧ (P.entries e).lock = some n)) :
      Step P (.leased e n s) (P.releases .release e' n).1 (P.releases .release e' n).2
  /-- `_release` returns or raises before it reaches the lock of an entry. -/
  | releaseReturns {P : Pool} {e n : ℕ} {s : Sandbox} (houtliving : rules.outliving = true)
      (hvoid : ∀ e', P.current = some e' → (P.entries e').barrier = false →
        (P.entries e').sandbox = some s → (P.entries e').lock = none) :
      Step P (.leased e n s) P .ended
  | releaseVoid {P : Pool} : Step P .releaseBegins P .ended
  | stray {P : Pool} {e n : ℕ} (hstray : rules.stray = true) (hcurrent : P.current = some e)
      (hbarrier : (P.entries e).barrier = false) (hlocked : (P.entries e).lock = some n) :
      Step P .releaseBegins (P.releases .stray e n).1 (P.releases .stray e n).2
  | writes {P P' : Pool} {who : Who} {e n : ℕ} {s : Sandbox} {w : Writing} {out : Written}
      (h : WriteStep rules owner session e n s P w P' out) :
      Step P (.writes who e n s w) (P'.wrote who e n s out).1 (P'.wrote who e n s out).2
  | dropRefused {P : Pool} (hclosed : P.closed = true) : Step P .dropBegins P .ended
  | dropBegins {P : Pool} (hopen : P.closed = false)
      (hquiet : rules.overlapping = false →
        ∀ e, (P.entries e).dropped = true → (P.entries e).quiet = true)
      (halone : rules.crossing = false →
        ∀ b, P.current = some b → (P.entries b).barrier = false) :
      Step P .dropBegins { P.barricade with dead := P.dropped.toList ++ P.dead }
        (.drops P.nextEntry P.clock P.current
          (if P.dropped.isSome then .closesSandbox else .waitsQuiet))
  | drops {P P' : Pool} {b n : ℕ} {old : Option ℕ} {p : Dropping} {c : Task}
      (h : DropStep rules b n old P p P' c) : Step P (.drops b n old p) P' c
  | closeBegins {P : Pool} (hclosing : rules.closing = true) :
      Step P .closeBegins { P with closed := true } .closeMarks
  | closesEmpty {P : Pool} (hnone : P.current = none) : Step P .closeMarks P .ended
  | closeMarks {P : Pool} {e : ℕ} (hcurrent : P.current = some e) :
      Step P .closeMarks (P.markGone e) (.closeWaits e .looks)
  | closeWaits {P : Pool} {e : ℕ} (hbusy : (P.entries e).quiet = false) :
      Step P (.closeWaits e .looks) P (.closeWaits e .waits)
  | closeWoken {P : Pool} {e : ℕ} (hquiet : (P.entries e).quiet = true) :
      Step P (.closeWaits e .waits) P (.closeWaits e .woken)
  | closeSkips {P : Pool} {e : ℕ} {k : Closing}
      (hgoes : k = .woken ∨ (k = .looks ∧ (P.entries e).quiet = true)) :
      Step P (.closeWaits e k) P (.closeClears e)
  | closeWrites {P : Pool} {e : ℕ} {k : Closing} {s : Sandbox}
      (hgoes : k = .woken ∨ (k = .looks ∧ (P.entries e).quiet = true))
      (hsandbox : (P.entries e).sandbox = some s) (hlive : (P.entries e).dropped = false) :
      Step P (.closeWaits e k) (P.persist .close e ((P.entries e).lock.getD 0) s).1
        (P.persist .close e ((P.entries e).lock.getD 0) s).2
  | closeClears {P : Pool} {e : ℕ} :
      Step P (.closeClears e) ({ P with current := none }.clearSandbox e) .ended
  | closeCancelled {P : Pool} : Step P .closeMarks P .ended
  | closeWaitCancelled {P : Pool} {e : ℕ} {k : Closing} : Step P (.closeWaits e k) P .ended
  | closeWriteCancelled {P : Pool} {e : ℕ} : Step P (.closeClears e) P .ended

/-- Calls come at any time. -/
inductive Join : Pool → Task → Prop where
  | get {P : Pool} : Join P .looks
  | release {P : Pool} : Join P .releaseBegins
  | drop {P : Pool} : Join P .dropBegins
  | close {P : Pool} : Join P .closeBegins

/-- What happens besides: an idle session is evicted, a sandbox dies, the
journal expires, another session's value is stored, an old value is put under
the journal key. -/
inductive Env : Pool → Pool → Prop where
  | evicts {P : Pool} {e : ℕ} (hcurrent : P.current = some e)
      (hfree : (P.entries e).lock = none) : Env P (P.evict e)
  | dies {P : Pool} (s : Sandbox) : Env P { P with dead := s :: P.dead }
  | expires {P : Pool} : Env P { P with journal := none }
  | others {P : Pool} {o i : List ℕ} (j : Journal) (howner : checkId o = true)
      (hsession : checkId i = true) (hother : (o, i) ≠ (owner, session)) :
      Env P { P with ever := P.ever ++ [.journal o i j] }
  | counters {P : Pool} (digits : List ℕ) :
      Env P { P with ever := P.ever ++ [.text digits] }
  | tampers {P : Pool} {v : Value} (htampering : rules.tampering = true) (hever : v ∈ P.ever) :
      Env P { P with journal := some v }

/-- The states of a session pool, over every interleaving. -/
def Reachable : Interleaving.Sys Pool Task → Prop :=
  Interleaving.Reachable (Step rules owner session) Join (Env rules owner session) .new

end

end Pydeno.Sessions
