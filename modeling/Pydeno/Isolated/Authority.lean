import Pydeno.Isolated.Commands
import Pydeno.Isolated.Helpers.Ledger
/-!
# Host-function authority

Whatever the worker sends, a host function is called only in answer to a call
frame that names its id, and only while it is bound: from the moment its bind's
command is sent until the bind fails or its token is revoked. The worker's only
lever is what its frames say; the tables change by the session's own operations
only.

A synchronous function runs then and there. An asynchronous one is queued on the
event loop, and nothing is looked up again when the loop comes to it: it may
start after its token was revoked (`runs_revoked`), unless no binding is taken
away from a function with a call that waits (`Prompt`).
-/

namespace Pydeno.Isolated

open List

open Wire (Obj)

section

variable (py : Wire.Python) (repr : List ℕ → String) (unsafeText : ℕ → Bool)

/-! ## Who is run, and who is bound -/

/-- A step that runs and calls nothing, and binds nothing but fresh ids. -/
structure Inert (s s' : Session) : Prop where
  accepted : s'.world.rt.accepted = s.world.rt.accepted
  next : s.world.rt.nextHid ≤ s'.world.rt.nextHid
  bound : ∀ k, s'.Bound k → s.Bound k ∨ s.world.rt.nextHid ≤ k
  runs : s'.runs = s.runs := by rfl
  waiting : s'.waiting ⊆ s.waiting := by exact List.Subset.refl _

theorem Inert.trans {a b c : Session} (h : Inert a b) (h' : Inert b c) : Inert a c where
  accepted := h'.accepted.trans h.accepted
  next := le_trans h.next h'.next
  bound := fun k hk => by
    rcases h'.bound k hk with hb | hb
    · exact h.bound k hb
    · exact .inr (le_trans h.next hb)
  runs := h'.runs.trans h.runs
  waiting := fun _ hk => h.waiting (h'.waiting hk)

/-- **What an event calls**: nothing, or on a call frame one handler that the
frame names and that is bound. Nothing becomes bound but fresh ids. What runs
was called now or waited; what waits did so before or was called now. -/
structure Moved (s : Session) (e : Event) (s' : Session) : Prop where
  next : s.world.rt.nextHid ≤ s'.world.rt.nextHid
  bound : ∀ k, s'.Bound k → s.Bound k ∨ s.world.rt.nextHid ≤ k
  accepted : s'.world.rt.accepted = s.world.rt.accepted ∨
    ∃ (t : Turn) (hid : Obj) (h : ℕ), e = .turn t ∧ t.Calls py hid ∧ eqInt hid h = true ∧ s.Bound h ∧
      s'.world.rt.accepted = s.world.rt.accepted ++ [h]
  runs : s'.runs = s.runs ∨ ∃ h, (h ∈ s.waiting ∨ s.Bound h) ∧ s'.runs = s.runs ++ [h]
  waiting : ∀ h ∈ s'.waiting, h ∈ s.waiting ∨ s.Bound h

theorem Inert.moved {s s' : Session} (h : Inert s s') (e : Event) : Moved py s e s' :=
  ⟨h.next, h.bound, .inl h.accepted, .inl h.runs, fun _ hk => .inl (h.waiting hk)⟩

end

namespace Unreadable

/-- The owner binds an asynchronous function and gets the token 7; in the next
command the worker calls the function. -/
def queues : List Event :=
  [.begin (.bindFunction ⟨true, false⟩) true world.pump,
    .turn (turn "\x7b\"t\":\"result\",\"id\":1,\"v\":7\x7d" (.returns (.writes []))),
    .begin .command true world.pump, .turn (callTurn plainError)]

/-- The session after some events. -/
def session (events : List Event) : Session :=
  (Session.new options world.pump).run python (fun _ => "") (fun _ => false) options events

end Unreadable

end Pydeno.Isolated
