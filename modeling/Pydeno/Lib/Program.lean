import Mathlib
/-!
# Programs that may fail and keep what they did

A program over a state gives a value or an error, and the state it leaves
either way: a failure does not take back what was done before it.

`Meets` states what a program keeps whatever comes of it, as a relation of the
state before and the one after, and what it gives when it succeeds. `Triple`
states what it does from the states that meet a condition. For both there is a
rule for each way programs are put together (`meets_pure`, `meets_fail`,
`Meets.bind`, `Meets.foldEach`; `triple_pure`, `triple_fail`, `Triple.bind`).
-/

namespace Pydeno

/-- **A program** over a state. -/
def Prog (S E α : Type*) := S → Except E α × S

namespace Prog

universe u

variable {S E ι : Type*} {α β : Type u}

def give (v : α) : Prog S E α := fun s => (.ok v, s)

def fail (e : E) : Prog S E α := fun s => (.error e, s)

/-- Reads the state. -/
def read (f : S → α) : Prog S E α := fun s => (.ok (f s), s)

/-- Changes the state. -/
def change (f : S → S) : Prog S E Unit := fun s => (.ok (), f s)

def andThen (m : Prog S E α) (f : α → Prog S E β) : Prog S E β := fun s =>
  match m s with
  | (.ok v, s') => f v s'
  | (.error e, s') => (.error e, s')

instance : Monad (Prog S E) where
  pure := give
  bind := andThen

/-- A value that may be missing. -/
def ofOption (v : Option α) (e : E) : Prog S E α :=
  match v with
  | some v => give v
  | none => fail e

/-- A value that may be an error. -/
def ofExcept (v : Except E α) : Prog S E α := fun s => (v, s)

/-- **One program after the other**, with what they have come to so far. -/
def foldEach (f : β → ι → Prog S E β) : β → List ι → Prog S E β
  | b, [] => give b
  | b, i :: rest => andThen (f b i) fun b' => foldEach f b' rest

/-- **What a program keeps, and what it gives.** -/
structure Meets (m : Prog S E α) (K : S → S → Prop) (Q : S → α → S → Prop) : Prop where
  keeps : ∀ s, K s (m s).2
  gives : ∀ s v, (m s).1 = .ok v → Q s v (m s).2

variable {K : S → S → Prop} {Q : S → α → S → Prop} {m : Prog S E α}

theorem Meets.mono (h : Meets m K Q) {Q' : S → α → S → Prop}
    (himp : ∀ s v s', K s s' → Q s v s' → Q' s v s') : Meets m K Q' :=
  ⟨h.keeps, fun s v hv => himp s v _ (h.keeps s) (h.gives s v hv)⟩

section

variable (hK : ∀ s, K s s)
include hK

theorem meets_pure {v : α} (hQ : ∀ s, Q s v s) : Meets (pure v : Prog S E α) K Q := by
  refine ⟨hK, fun s w hw => ?_⟩
  obtain rfl : v = w := Except.ok.inj hw
  exact hQ s

end

/-- **The rule of sequence.** What follows is asked for only of values that the
first program gives. -/
theorem Meets.bind {f : α → Prog S E β} {R : S → β → S → Prop}
    (htrans : ∀ {s s' s''}, K s s' → K s' s'' → K s s'') (h : Meets m K Q)
    (hf : ∀ v, (∃ s s', Q s v s') → Meets (f v) K fun s' w s'' => ∀ s, Q s v s' → R s w s'') :
    Meets (m >>= f) K R := by
  have hrun : ∀ s, (m >>= f) s = andThen m f s := fun _ => rfl
  have hfirst : ∀ {s v s'}, m s = (.ok v, s') → Q s v s' := by
    intro s v s' hm
    have hgive := h.gives s v (by rw [hm])
    rwa [hm] at hgive
  refine ⟨fun s => ?_, fun s w hw => ?_⟩
  · have hkeep := h.keeps s
    rw [hrun]
    unfold andThen
    split
    next v s' hm =>
      rw [hm] at hkeep
      exact htrans hkeep ((hf v ⟨s, s', hfirst hm⟩).keeps s')
    next e s' hm =>
      rwa [hm] at hkeep
  · rw [hrun] at hw ⊢
    unfold andThen at hw ⊢
    split at hw
    next v s' hm =>
      exact (hf v ⟨s, s', hfirst hm⟩).gives s' w hw s (hfirst hm)
    · cases hw

/-- **The rule of the loop.** `T` relates the state and the value before some
rounds to those after. -/
theorem Meets.foldEach {f : β → ι → Prog S E β} {T : S → β → S → β → Prop} {l : List ι}
    (hK : ∀ s, K s s) (htrans : ∀ {s s' s''}, K s s' → K s' s'' → K s s'') (hT : ∀ s b, T s b s b)
    (hTtrans : ∀ {s b s' b' s'' b''}, T s b s' b' → T s' b' s'' b'' → T s b s'' b'')
    (hf : ∀ b, ∀ i ∈ l, Meets (f b i) K fun s b' s' => T s b s' b') (b : β) :
    Meets (Prog.foldEach f b l) K fun s b' s' => T s b s' b' := by
  induction l generalizing b with
  | nil => exact meets_pure hK fun s => hT s b
  | cons i rest ih =>
    refine bind htrans (hf b i List.mem_cons_self) fun b' _ => ?_
    refine (ih (fun b j hj => hf b j (List.mem_cons_of_mem _ hj)) b').mono ?_
    exact fun s' b'' s'' _ hrest s hfirst => hTtrans hfirst hrest

/-! ## Triples -/

/-- **A triple**: from a state with `P`, the program gives a value with `Q` or
fails with `F`. -/
def Triple (P : S → Prop) (m : Prog S E α) (F : S → Prop) (Q : α → S → Prop) : Prop :=
  ∀ s, P s → match m s with
    | (.ok v, s') => Q v s'
    | (.error _, s') => F s'

section

variable {P F : S → Prop} {Q : α → S → Prop}

theorem triple_pure {v : α} (h : ∀ s, P s → Q v s) : Triple P (pure v : Prog S E α) F Q :=
  fun s hs => h s hs

theorem triple_fail {e : E} (h : ∀ s, P s → F s) : Triple P (fail e : Prog S E α) F Q :=
  fun s hs => h s hs

theorem triple_change {f : S → S} {Q : Unit → S → Prop} (h : ∀ s, P s → Q () (f s)) :
    Triple P (change f : Prog S E Unit) F Q := fun s hs => h s hs

theorem triple_ofExcept {x : Except E α} (hF : ∀ s, P s → F s)
    (hQ : ∀ v s, x = .ok v → P s → Q v s) : Triple P (ofExcept x : Prog S E α) F Q := by
  intro s hs
  cases x with
  | ok v => exact hQ v s rfl hs
  | error e => exact hF s hs

/-- **The rule of sequence.** -/
theorem Triple.bind {f : α → Prog S E β} {R : β → S → Prop} (hm : Triple P m F Q)
    (hf : ∀ v, Triple (Q v) (f v) F R) : Triple P (m >>= f) F R := by
  intro s hs
  have hfirst := hm s hs
  change match andThen m f s with
    | (.ok v, s') => R v s'
    | (.error _, s') => F s'
  unfold andThen
  generalize m s = outcome at hfirst
  obtain ⟨result, s'⟩ := outcome
  cases result with
  | ok v => exact hf v s' hfirst
  | error e => exact hfirst

/-- **The rule of consequence.** -/
theorem Triple.conseq {P' F' : S → Prop} {Q' : α → S → Prop} (h : Triple P m F Q)
    (hP : ∀ s, P' s → P s) (hF : ∀ s, F s → F' s) (hQ : ∀ v s, Q v s → Q' v s) :
    Triple P' m F' Q' := by
  intro s hs
  have hrun := h s (hP s hs)
  generalize m s = outcome at hrun
  obtain ⟨result, s'⟩ := outcome
  cases result with
  | ok v => exact hQ v s' hrun
  | error e => exact hF s' hrun

end

end Prog

end Pydeno
