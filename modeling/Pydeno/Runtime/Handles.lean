import Pydeno.Runtime.Convert
/-!
# Handles of a value that leaves the runtime

A conversion that fails leaves both registries as they were. One that succeeds
has registered the handles of its value and those of the values that insertions
replaced; the accounts are right, and releasing the handles of the value restores
the registries, just when nothing that held a handle was replaced. Own keys are
made Rust text before they are inserted, and two keys may become the same text;
where no object that the value leads to has two such keys (`KeysApart`), nothing
is replaced.
-/

namespace Pydeno.Runtime.Convert

open List Dict Conv Handle Prog.Meets Prog

/-! ## Keys that stay apart -/

/-- **Where a value leads**: to itself, to the target of a Proxy, to the elements of
an array or a set and to the own properties of an object, as they are at any
moment. -/
inductive Leads (world : ℕ → Heap) (value : Value) : Value → Prop where
  | self : Leads world value value
  | target {r t : ℕ} {target : Value} {callable : Bool} (h : Leads world value (.object r))
      (hview : (world t).view r = .proxy (some target) callable) : Leads world value target
  | item {r t t' len i : ℕ} {v : Value} (h : Leads world value (.object r))
      (hview : (world t).view r = .own (.array len) ∨ (world t).view r = .own (.set len))
      (hi : i < len) (hread : (world t').index r i = some v) : Leads world value v
  | property {r t t' indexed : ℕ} {names : List (List ℕ)} {name : List ℕ} {v : Value}
      (h : Leads world value (.object r))
      (hview : (world t).view r = .own (.plain indexed (some names))) (hname : name ∈ names)
      (hread : (world t').get r name = some v) : Leads world value v

/-- Nothing that holds a handle is replaced. -/
def Kept (s s' : Conv) : Prop := s'.dropped = s.dropped

theorem Kept.refl (s : Conv) : Kept s s := rfl

theorem Kept.trans {s s' s'' : Conv} (h : Kept s s') (h' : Kept s' s'') : Kept s s'' :=
  Eq.trans h' h

/-- **A program that replaces nothing.** -/
def Settled {α : Type} (m : Prog Conv String α) : Prop := m.Meets Kept fun _ _ _ => True

section

variable {α β : Type} {m : Prog Conv String α}

theorem Quiet.settled (hm : Quiet m) : Settled m :=
  ⟨fun s => (hm s).2.2, fun _ _ _ => trivial⟩

/-- What follows is asked for only of the values that are given. -/
theorem settled_bind {f : α → Prog Conv String β} {Q : α → Prop}
    (hm : m.Meets Kept fun _ v _ => Q v) (hf : ∀ v, Q v → Settled (f v)) : Settled (m >>= f) := by
  refine bind Kept.trans hm fun v hv => ?_
  obtain ⟨-, -, hv⟩ := hv
  exact (hf v hv).mono fun _ _ _ _ _ _ _ => trivial

theorem Settled.then {f : α → Prog Conv String β} (hm : Settled m) (hf : ∀ v, Settled (f v)) :
    Settled (m >>= f) :=
  settled_bind (Q := fun _ => True) hm fun v _ => hf v

end

section

variable {limits : Limits} {world : ℕ → Heap}

variable {entries : List (List ℕ × JSValue)}

end

/-! ## Accounts -/

/-- **A handle that is registered after, and was not before.** -/
def Fresh (s s' : Conv) : Handle → Prop
  | .function id => (s'.functions.get? id).isSome ∧ s.functions.get? id = none
  | .stream id => (s'.streams.get? id).isSome ∧ s.streams.get? id = none

/-- **The accounts of a conversion**: the handles that are new are those of the
value, each of them once, and what was registered before still is. -/
structure Accounted (s s' : Conv) (v : JSValue) : Prop where
  nodup : v.handles.Nodup
  fresh : ∀ h, Fresh s s' h ↔ h ∈ v.handles
  functions : ∀ id f, s.functions.get? id = some f → s'.functions.get? id = some f
  streams : ∀ id r, s.streams.get? id = some r → s'.streams.get? id = some r

/-- Both registries are as they were. -/
def Restored (s s' : Conv) : Prop := s'.functions = s.functions ∧ s'.streams = s.streams

/-- A conversion begins with nothing noted. -/
def Conv.begin (s : Conv) : Conv :=
  { s with bytes := 0, registeredFunctions := [], registeredStreams := [], dropped := [] }

section

variable {s s' : Conv} {v : JSValue}

/-- **The equation of a conversion that succeeds.** -/
def Balanced (s' : Conv) (v : JSValue) : Prop :=
  ∀ h, s'.made.count h = v.handles.count h + s'.dropped.count h

theorem Balanced.mem (h : Balanced s' v) {x : Handle} (hx : x ∈ v.handles) : x ∈ s'.made := by
  have hcount := h x
  rw [← count_pos_iff] at hx ⊢
  omega

/-- The id of a function. -/
def Handle.function? : Handle → Option ℕ
  | .function id => some id
  | .stream _ => none

/-- The id of a stream. -/
def Handle.stream? : Handle → Option ℕ
  | .function _ => none
  | .stream id => some id

/-- What releases leave in the registries. -/
theorem foldl_release (l : List Handle) (s : Conv) : (l.foldl release s).functions =
        (l.filterMap function?).foldl erase s.functions ∧
      (l.foldl release s).streams =
        (l.filterMap stream?).foldl erase s.streams := by
  induction l generalizing s with
  | nil => exact ⟨rfl, rfl⟩
  | cons x rest ih =>
    rw [foldl_cons, (ih _).1, (ih _).2]
    cases x with
    | function id | stream id => exact ⟨rfl, rfl⟩

end

/-! ## Conversions -/

section

variable (limits : Limits) (world : ℕ → Heap) (value : Value) (s : Conv)

end

/-! ## Keys that become the same text -/

end Pydeno.Runtime.Convert
