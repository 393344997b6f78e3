import Pydeno.Runtime.Model.Transfer
/-!
# What an id means in another runtime

An open wrapper has its function's id to itself, and the registry of the runtime it came
from keeps the function under it (`Reachable.kept`). So an id that is passed back names the
function it was made for, in that runtime. A stream source is refused elsewhere; a function
is not.
-/

namespace Pydeno.Runtime.Transfer

open Process

open Pydeno.Runtime.Convert (JSValue Limits allocateId)

/-! ## What the registries keep -/

section

variable (p : Process) (r r' f g s t : ℕ)

theorem setRt_rt (x : Rt) : (p.setRt r x).rt r' = if r' = r then x else p.rt r' :=
  Function.update_apply _ _ _ _

theorem setFunction_functions (o : Option JsFunction) :
    (p.setFunction f o).functions g = if g = f then o else p.functions g :=
  Function.update_apply _ _ _ _

theorem setSource_sources (o : Option PyStreamSource) :
    (p.setSource s o).sources t = if t = s then o else p.sources t :=
  Function.update_apply _ _ _ _

end

/-- **What holds of wrappers and registries** in every state. -/
structure Kept (p : Process) : Prop where
  handle : ∀ f o, p.functions f = some o → o.closed = false → o.handle = some o.home
  registered : ∀ f o, p.functions f = some o → o.closed = false → (p.rt o.home).isShutdown = false →
    (p.rt o.home).functions.get? o.fnId = some o.function ∧ o.fnId ∉ (p.rt o.home).released
  distinct : ∀ f g o o', p.functions f = some o → p.functions g = some o' → o.home = o'.home →
    o.fnId = o'.fnId → f = g
  below : ∀ r id, (p.rt r).functions.get? id ≠ none ∨ id ∈ (p.rt r).released →
    id < (p.rt r).nextFnId
  wrapped : ∀ f o, p.functions f = some o → o.fnId < (p.rt o.home).nextFnId
  streams : ∀ r id, (p.rt r).streams.get? id ≠ none → id < (p.rt r).nextStreamId
  sources : ∀ s o, p.sources s = some o → o.streamId < (p.rt o.owner).nextStreamId ∧
    ∀ stream, (p.rt o.owner).streams.get? o.streamId = some stream → stream = o.stream

/-- An id that is free is handed out next. -/
theorem allocateId_of_free {entries : Dict ℕ ℕ} {n next id next' : ℕ}
    (hfree : entries.get? next = none) (hnext : next + 1 < 2 ^ 32)
    (h : allocateId entries (n + 1) next = (some id, next')) : id = next ∧ next' = next + 1 := by
  rw [allocateId, if_pos (by rw [hfree]; rfl), Nat.mod_eq_of_lt hnext] at h
  obtain ⟨hid, hnext'⟩ := Prod.mk.inj h
  exact ⟨(Option.some.inj hid).symm, hnext'.symm⟩

section

variable {p p' : Process} {r id : ℕ}

/-- **A runtime changes.** It keeps the functions of its open wrappers until it is shut down,
and hands out ids above those it has. -/
theorem Kept.setRt (hk : Kept p) {x : Rt}
    (hnext : (p.rt r).nextFnId ≤ x.nextFnId) (hnextStream : (p.rt r).nextStreamId ≤ x.nextStreamId)
    (hopen : ∀ f o, p.functions f = some o → o.closed = false → o.home = r → x.isShutdown = false →
      x.functions.get? o.fnId = some o.function ∧ o.fnId ∉ x.released)
    (hbelow : ∀ id, x.functions.get? id ≠ none ∨ id ∈ x.released → id < x.nextFnId)
    (hstreams : ∀ id, x.streams.get? id ≠ none → id < x.nextStreamId)
    (hsources : ∀ s o stream, p.sources s = some o → o.owner = r →
      x.streams.get? o.streamId = some stream → stream = o.stream) : Kept (p.setRt r x) := by
  refine ⟨hk.handle, fun f o hf hclosed hshut => ?_, hk.distinct, fun r' id hid => ?_,
    fun f o hf => ?_, fun r' id hid => ?_, fun s o hs => ?_⟩
  · rw [setRt_rt] at hshut ⊢
    split at hshut
    next hr =>
      rw [if_pos hr]
      exact hopen f o hf hclosed hr hshut
    next hr =>
      rw [if_neg hr]
      exact hk.registered f o hf hclosed hshut
  · rw [setRt_rt] at hid ⊢
    split at hid
    next hr => rw [if_pos hr]; exact hbelow id hid
    next hr => rw [if_neg hr]; exact hk.below r' id hid
  · rw [setRt_rt]
    split
    next hr => exact (hr ▸ hk.wrapped f o hf).trans_le hnext
    · exact hk.wrapped f o hf
  · rw [setRt_rt] at hid ⊢
    split at hid
    next hr => rw [if_pos hr]; exact hstreams id hid
    next hr => rw [if_neg hr]; exact hk.streams r' id hid
  · rw [setRt_rt]
    obtain ⟨hlt, hstream⟩ := hk.sources s o hs
    split
    next hr => exact ⟨(hr ▸ hlt).trans_le hnextStream, fun stream => hsources s o stream hs hr⟩
    · exact ⟨hlt, hstream⟩

/-- A release is sent for an id that no open wrapper has. -/
theorem Kept.sendRelease (hk : Kept p) (hid : id < (p.rt r).nextFnId)
    (hown : ∀ f o, p.functions f = some o → o.closed = false → o.home = r → o.fnId ≠ id) :
    Kept (p.sendRelease r id) := by
  refine hk.setRt le_rfl le_rfl (fun f o hf hclosed hr hshut => ?_) (fun id' hid' => ?_)
    (hk.streams r) fun s o stream hs hr => hr ▸ (hk.sources s o hs).2 stream
  · obtain ⟨hget, hnot⟩ := hk.registered f o hf hclosed (hr ▸ hshut)
    subst hr
    refine ⟨hget, fun hmem => ?_⟩
    rcases List.mem_append.1 hmem with hmem | hmem
    · exact hnot hmem
    · exact hown f o hf hclosed rfl (List.mem_singleton.1 hmem)
  · rcases hid' with hget | hmem
    · exact hk.below r id' (.inl hget)
    · rcases List.mem_append.1 hmem with hmem | hmem
      · exact hk.below r id' (.inr hmem)
      · exact List.mem_singleton.1 hmem ▸ hid

/-- A wrapper is closed, or it is collected. -/
theorem Kept.closed (hk : Kept p) {f : ℕ} {o : JsFunction} (hf : p.functions f = some o)
    {x : Option JsFunction}
    (hx : ∀ y, x = some y → y.closed = true ∧ y.home = o.home ∧ y.fnId = o.fnId) :
    Kept ((p.setFunction f x).sendRelease o.home o.fnId) := by
  have hcases : ∀ {g y}, (p.setFunction f x).functions g = some y →
      (g = f ∧ y.closed = true ∧ y.home = o.home ∧ y.fnId = o.fnId) ∨
        (g ≠ f ∧ p.functions g = some y) := by
    intro g y hg
    rw [setFunction_functions] at hg
    split at hg
    next hgf => exact .inl ⟨hgf, hx y hg⟩
    next hgf => exact .inr ⟨hgf, hg⟩
  have hsame : ∀ {g y}, (p.setFunction f x).functions g = some y →
      ∃ y', p.functions g = some y' ∧ y'.home = y.home ∧ y'.fnId = y.fnId := by
    intro g y hg
    rcases hcases hg with ⟨rfl, -, hhome, hid⟩ | ⟨-, hg⟩
    · exact ⟨o, hf, hhome.symm, hid.symm⟩
    · exact ⟨y, hg, rfl, rfl⟩
  have hset : Kept (p.setFunction f x) := by
    refine ⟨fun g y hg hopen => ?_, fun g y hg hopen => ?_, fun g g' y y' hg hg' hhome hid => ?_,
      hk.below, fun g y hg => ?_, hk.streams, hk.sources⟩
    · rcases hcases hg with ⟨-, hclosed, -⟩ | ⟨-, hg⟩
      · cases hclosed.symm.trans hopen
      · exact hk.handle g y hg hopen
    · rcases hcases hg with ⟨-, hclosed, -⟩ | ⟨-, hg⟩
      · cases hclosed.symm.trans hopen
      · exact hk.registered g y hg hopen
    · obtain ⟨z, hz, hzhome, hzid⟩ := hsame hg
      obtain ⟨z', hz', hzhome', hzid'⟩ := hsame hg'
      exact hk.distinct g g' z z' hz hz' (by rw [hzhome, hzhome', hhome]) (by rw [hzid, hzid', hid])
    · obtain ⟨z, hz, hhome, hid⟩ := hsame hg
      have := hk.wrapped g z hz
      rwa [hhome, hid] at this
  refine hset.sendRelease (hk.wrapped f o hf) fun g y hg hopen hhome hid => ?_
  rcases hcases hg with ⟨-, hclosed, -⟩ | ⟨hgf, hg⟩
  · cases hclosed.symm.trans hopen
  · exact hgf (hk.distinct g f y o hg hf hhome hid)

/-- A source is made, closed or collected. -/
theorem Kept.setSource (hk : Kept p) {s : ℕ} {x : Option PyStreamSource}
    (hx : ∀ o, x = some o → o.streamId < (p.rt o.owner).nextStreamId ∧
      ∀ stream, (p.rt o.owner).streams.get? o.streamId = some stream → stream = o.stream) :
    Kept (p.setSource s x) := by
  refine ⟨hk.handle, hk.registered, hk.distinct, hk.below, hk.wrapped, hk.streams, fun t o ht => ?_⟩
  rw [setSource_sources] at ht
  split at ht
  · exact hx o ht
  · exact hk.sources t o ht

theorem Kept.open_at (hk : Kept p) {f : ℕ} {o : JsFunction} (hf : p.functions f = some o)
    (hclosed : o.closed = false) (hr : o.home = r) (hshut : (p.rt r).isShutdown = false) :
    (p.rt r).functions.get? o.fnId = some o.function ∧ o.fnId ∉ (p.rt r).released := by
  subst hr
  exact hk.registered f o hf hclosed hshut

theorem Kept.source_at (hk : Kept p) {s stream : ℕ} {o : PyStreamSource}
    (hs : p.sources s = some o) (hr : o.owner = r)
    (hget : (p.rt r).streams.get? o.streamId = some stream) : stream = o.stream := by
  subst hr
  exact (hk.sources s o hs).2 stream hget

/-- A function is entered under the next id, which is above every id handed out. -/
theorem Kept.registers (hk : Kept p) (function : ℕ) :
    Kept (p.setRt r { p.rt r with
      functions := (p.rt r).functions.set (p.rt r).nextFnId function
      nextFnId := (p.rt r).nextFnId + 1 }) := by
  refine hk.setRt (Nat.le_succ _) le_rfl (fun f o hf hclosed hr hshut => ?_) (fun id hid => ?_)
    (hk.streams r) fun s o stream => hk.source_at
  · have hlt : o.fnId < (p.rt r).nextFnId := hr ▸ hk.wrapped f o hf
    obtain ⟨hget, hnot⟩ := hk.open_at hf hclosed hr hshut
    exact ⟨by rwa [Dict.get?_set_ne hlt.ne], hnot⟩
  · rw [Dict.get?_set] at hid
    by_cases hnew : id = (p.rt r).nextFnId
    · exact hnew ▸ Nat.lt_succ_self _
    · rw [if_neg hnew] at hid
      exact (hk.below r id hid).trans (Nat.lt_succ_self _)

/-- A function is wrapped, for the first time. -/
theorem Kept.wraps (hk : Kept p) {f function : ℕ}
    (hid : (p.rt r).functions.get? id = some function) (hkept : id ∉ (p.rt r).released)
    (honce : p.Unowned r id) : Kept (p.setFunction f (some ⟨some r, id, false, r, function⟩)) := by
  have hcases : ∀ {g y},
      (p.setFunction f (some ⟨some r, id, false, r, function⟩)).functions g = some y →
      (g = f ∧ y = ⟨some r, id, false, r, function⟩) ∨ p.functions g = some y := by
    intro g y hg
    rw [setFunction_functions] at hg
    split at hg
    next hgf => exact .inl ⟨hgf, (Option.some.inj hg).symm⟩
    · exact .inr hg
  refine ⟨fun g y hg hclosed => ?_, fun g y hg hclosed hshut => ?_,
    fun g g' y y' hg hg' hhome heq => ?_, hk.below, fun g y hg => ?_, hk.streams, hk.sources⟩
  · rcases hcases hg with ⟨-, rfl⟩ | hg
    · rfl
    · exact hk.handle g y hg hclosed
  · rcases hcases hg with ⟨-, rfl⟩ | hg
    · exact ⟨hid, hkept⟩
    · exact hk.registered g y hg hclosed hshut
  · -- no other wrapper has the id
    rcases hcases hg with ⟨hf, rfl⟩ | hold <;> rcases hcases hg' with ⟨hf', rfl⟩ | hold'
    · exact hf.trans hf'.symm
    · exact absurd heq.symm (honce g' y' hold' hhome.symm)
    · exact absurd heq (honce g y hold hhome)
    · exact hk.distinct g g' y y' hold hold' hhome heq
  · rcases hcases hg with ⟨-, rfl⟩ | hg
    · exact hk.below r id (.inl (by simp [hid]))
    · exact hk.wrapped g y hg

/-- What was released has no open wrapper. -/
theorem Kept.releases (hk : Kept p) (hid : id ∈ (p.rt r).released) :
    Kept (p.setRt r { p.rt r with functions := (p.rt r).functions.erase id }) := by
  refine hk.setRt le_rfl le_rfl (fun f o hf hclosed hr hshut => ?_) (fun id' hid' => ?_)
    (hk.streams r) fun s o stream => hk.source_at
  · obtain ⟨hget, hnot⟩ := hk.open_at hf hclosed hr hshut
    have hne : o.fnId ≠ id := fun heq => hnot (heq ▸ hid)
    exact ⟨by rwa [Dict.get?_erase_ne hne], hnot⟩
  · refine hk.below r id' (hid'.imp_left fun hget => ?_)
    rw [Dict.get?_erase] at hget
    split at hget
    · exact absurd rfl hget
    · exact hget

/-- A stream is opened under the next id. -/
theorem Kept.opens (hk : Kept p) (s stream : ℕ) :
    Kept ((p.setSource s (some ⟨some r, (p.rt r).nextStreamId, false, r, stream⟩)).setRt r
      { p.rt r with
        streams := (p.rt r).streams.set (p.rt r).nextStreamId stream
        nextStreamId := (p.rt r).nextStreamId + 1 }) := by
  refine Kept.setSource (p := p.setRt r _) ?_ fun o ho => ?_
  · refine hk.setRt le_rfl (Nat.le_succ _) (fun f o => hk.open_at) (hk.below r) (fun id hid => ?_)
      fun s o stream' hs hr hget => ?_
    · rw [Dict.get?_set] at hid
      split at hid
      next hnew => exact hnew ▸ Nat.lt_succ_self _
      · exact (hk.streams r id hid).trans (Nat.lt_succ_self _)
    · have hlt : o.streamId < (p.rt r).nextStreamId := hr ▸ (hk.sources s o hs).1
      rw [Dict.get?_set_ne hlt.ne] at hget
      exact hk.source_at hs hr hget
  · cases ho
    rw [setRt_rt, if_pos rfl]
    refine ⟨Nat.lt_succ_self _, fun stream' hget => ?_⟩
    rw [Dict.get?_set_self] at hget
    exact (Option.some.inj hget).symm

/-- A stream ends. -/
theorem Kept.ends (hk : Kept p) :
    Kept (p.setRt r { p.rt r with streams := (p.rt r).streams.erase id }) := by
  refine hk.setRt le_rfl le_rfl (fun f o => hk.open_at) (hk.below r) (fun id' hid => ?_)
    fun s o stream hs hr hget => ?_
  · rw [Dict.get?_erase] at hid
    split at hid
    · exact absurd rfl hid
    · exact hk.streams r id' hid
  · rw [Dict.get?_erase] at hget
    split at hget
    · cases hget
    · exact hk.source_at hs hr hget

theorem Step.kept (h : Step p p') (hu : p.Unwrapped) (hk : Kept p) : Kept p' := by
  cases h with
  | registers r function ha =>
    have hfree : (p.rt r).functions.get? (p.rt r).nextFnId = none := by
      by_contra hne
      exact Nat.lt_irrefl _ (hk.below r _ (.inl hne))
    obtain ⟨rfl, rfl⟩ := allocateId_of_free hfree (hu r).1 ha
    exact hk.registers function
  | wraps r hnew hid hkept honce => exact hk.wraps hid hkept honce
  | closes hf => exact hk.closed hf fun y hy => by cases hy; exact ⟨rfl, rfl, rfl⟩
  | finalizes hf => exact hk.closed hf fun y hy => by cases hy
  | givesUp r id hun hid =>
    exact hk.sendRelease (hk.below r id (.inl hid)) fun f o hf _ => hun f o hf
  | releases r id hid => exact hk.releases hid
  | shutsDown r =>
    exact hk.setRt le_rfl le_rfl (fun f o _ _ _ hup => by cases hup) (hk.below r) (hk.streams r)
      fun s o stream => hk.source_at
  | clears r hshut =>
    refine hk.setRt le_rfl le_rfl (fun f o _ _ _ hup => by cases hshut.symm.trans hup)
      (fun id hid => ?_) (hk.streams r) fun s o stream => hk.source_at
    exact hk.below r id (hid.imp_left fun hget => absurd (Dict.get?_empty id) hget)
  | @opens r stream s _ _ hnew ha =>
    have hfree : (p.rt r).streams.get? (p.rt r).nextStreamId = none := by
      by_contra hne
      exact Nat.lt_irrefl _ (hk.streams r _ hne)
    obtain ⟨rfl, rfl⟩ := allocateId_of_free hfree (hu r).2 ha
    exact hk.opens s stream
  | ends r id => exact hk.ends
  | @closesSource s o hs =>
    refine hk.setSource fun o' ho => ?_
    cases ho
    exact hk.sources s o hs
  | collects => exact hk.setSource fun o ho => by cases ho

end

theorem Reachable.kept {p : Process} (h : Reachable p) : Kept p := by
  induction h with
  | refl => constructor <;> simp [start, Dict.get?_empty]
  | tail _ hstep ih => exact hstep.1.kept hstep.2 ih

/-! ## What a value means -/

/-- The id names, in runtime `r`, the function that the object was created for. -/
def FunctionAt (p : Process) (r f id : ℕ) : Prop :=
  ∃ o, p.functions f = some o ∧ o.home = r ∧ (p.rt r).functions.get? id = some o.function

/-- The id is of runtime `r` and names there, until the stream has ended, the stream that
the object was created for. -/
def StreamAt (p : Process) (r s id : ℕ) : Prop :=
  ∃ o, p.sources s = some o ∧ o.owner = r ∧
    ∀ stream, (p.rt r).streams.get? id = some stream → stream = o.stream

mutual

/-- **Every placeholder in a converted value denotes**, in runtime `r`, what its Python
object was created for. -/
def Denotes (p : Process) (r : ℕ) : Value → JSValue → Prop
  | .function f, .function id => FunctionAt p r f id
  | .source s, .pyStream id => StreamAt p r s id
  | .list items, .array vs => DenoteAll p r items vs
  | .set items, .set vs => DenoteAll p r items vs
  | .dict entries, .object vs => DenoteIn p r entries vs
  | .function _, _ | .source _, _ | .list _, _ | .set _, _ | .dict _, _ => False
  | _, _ => True

def DenoteAll (p : Process) (r : ℕ) : List Value → List JSValue → Prop
  | [], [] => True
  | v :: items, w :: vs => Denotes p r v w ∧ DenoteAll p r items vs
  | _, _ => False

def DenoteIn (p : Process) (r : ℕ) :
    List (Option (List ℕ) × Value) → List (List ℕ × JSValue) → Prop
  | [], [] => True
  | (_, v) :: entries, (_, w) :: vs => Denotes p r v w ∧ DenoteIn p r entries vs
  | _, _ => False

end

mutual

/-- **Every function in a value belongs to runtime `r`.** -/
def Value.AtHome (p : Process) (r : ℕ) : Value → Prop
  | .function f => ∀ o, p.functions f = some o → o.home = r
  | .list items => AllAtHome p r items
  | .set items => AllAtHome p r items
  | .dict entries => AllIn p r entries
  | _ => True

def AllAtHome (p : Process) (r : ℕ) : List Value → Prop
  | [] => True
  | v :: rest => v.AtHome p r ∧ AllAtHome p r rest

def AllIn (p : Process) (r : ℕ) : List (Option (List ℕ) × Value) → Prop
  | [] => True
  | (_, v) :: rest => v.AtHome p r ∧ AllIn p r rest

end

section

variable {p : Process} {limits : Limits} {stackUsed : ℕ → Option ℕ} {r : ℕ} {α β : Type}

/-- What a conversion gives meets `Q`. -/
def Gives (m : Prog ℕ String α) (Q : α → Prop) : Prop :=
  Prog.Triple (fun _ => True) m (fun _ => True) fun o _ => Q o

variable {Q : α → Prop}

theorem Gives.bind {m : Prog ℕ String α} {f : α → Prog ℕ String β} {R : β → Prop}
    (h : Gives m Q) (hf : ∀ o, Q o → Gives (f o) R) : Gives (m >>= f) R := by
  refine Prog.Triple.bind h fun o s ho => ?_
  exact hf o ho s trivial

theorem gives_any (m : Prog ℕ String α) : Gives m fun _ => True := by
  rintro s -
  split <;> trivial

/-- What is counted and checked before. -/
theorem gives_after (m : Prog ℕ String β) {f : β → Prog ℕ String α} (h : ∀ o, Gives (f o) Q) :
    Gives (m >>= f) Q :=
  (gives_any m).bind fun o _ => h o

theorem gives_pure {o : α} (h : Q o) : Gives (pure o) Q := fun _ _ => h

theorem gives_fail {e : String} : Gives (Prog.fail e) Q := fun _ _ => trivial

theorem gives_ofExcept {x : Except String α} (h : ∀ o, x = .ok o → Q o) :
    Gives (Prog.ofExcept x) Q :=
  Prog.triple_ofExcept (fun _ _ => trivial) fun o _ ho _ => h o ho

/-- **A function that is passed** names itself at home, and something else or nothing
elsewhere. -/
theorem functionAt_iff (hk : Kept p) {f id : ℕ} (h : functionIdForTransfer p f = .ok id) :
    FunctionAt p r f id ↔ (Value.function f).AtHome p r := by
  unfold functionIdForTransfer at h
  split at h
  · cases h
  rename_i o ho
  split_ifs at h with hclosed
  rw [Bool.not_eq_true] at hclosed
  rw [hk.handle f o ho hclosed] at h
  simp only at h
  split_ifs at h with hshut
  cases h
  rw [Bool.not_eq_true] at hshut
  have hhere := (hk.registered f o ho hclosed hshut).1
  rw [Value.AtHome]
  constructor
  · rintro ⟨o', ho', hhome, -⟩ o'' ho''
    rw [ho''] at ho'
    rw [Option.some.inj ho', hhome]
  · intro hhome
    exact ⟨o, ho, hhome o ho, hhome o ho ▸ hhere⟩

/-- **A stream that is passed** is one of the runtime it is passed to. -/
theorem streamAt (hk : Kept p) {s id : ℕ} (h : streamIdForTransfer p (some r) s = .ok id) :
    StreamAt p r s id := by
  unfold streamIdForTransfer at h
  split at h
  · cases h
  rename_i o ho
  by_cases howner : some r = some o.owner
  · rw [if_neg (not_not.mpr howner)] at h
    split_ifs at h
    split at h
    · cases h
    · split at h
      · cases h
      · cases h
        cases howner
        exact ⟨o, ho, rfl, (hk.sources s o ho).2⟩
  · rw [if_pos howner] at h
    split_ifs at h
    split at h
    · cases h
    · split at h <;> cases h

mutual

/-- **A converted value denotes what it should** exactly when its functions are at home. -/
theorem gives_denotes (hk : Kept p) (depth : ℕ) : ∀ v,
    Gives (pythonToJsValueInternal p limits stackUsed (some r) depth v)
      fun w => Denotes p r v w ↔ v.AtHome p r
  | .none | .undefined | .bytes _ | .bool _ | .float _ =>
    gives_after _ fun _ => gives_after _ fun _ => gives_pure Iff.rfl
  | .source s => by
    refine gives_after _ fun _ => gives_after _ fun _ => ?_
    refine (gives_ofExcept fun id hid => streamAt hk hid).bind fun id hid => ?_
    exact gives_pure (iff_of_true hid trivial)
  | .list items | .set items => by
    refine gives_after _ fun _ => gives_after _ fun _ => gives_after _ fun _ => ?_
    exact (gives_items hk _ items).bind fun ws hws => gives_pure hws
  | .dict entries => by
    refine gives_after _ fun _ => gives_after _ fun _ => gives_after _ fun _ => ?_
    exact (gives_entries hk _ entries).bind fun ws hws => gives_pure hws
  | .datetime ms =>
    gives_after _ fun _ => gives_after _ fun _ => gives_after _ fun _ => gives_pure Iff.rfl
  | .int z => by
    refine gives_after _ fun _ => ?_
    split
    · exact gives_after _ fun _ => gives_pure Iff.rfl
    · exact gives_after _ fun _ => gives_pure Iff.rfl
  | .str none | .other => gives_after _ fun _ => gives_fail
  | .str (some t) => by
    refine gives_after _ fun _ => ?_
    split
    · exact gives_fail
    · exact gives_after _ fun _ => gives_after _ fun _ => gives_pure Iff.rfl
  | .function f => by
    refine gives_after _ fun _ => ?_
    refine Gives.bind (Q := fun id => FunctionAt p r f id ↔ (Value.function f).AtHome p r)
      (gives_ofExcept fun id hid => functionAt_iff hk hid) fun id hid => ?_
    exact gives_after _ fun _ => gives_pure hid

theorem gives_items (hk : Kept p) (depth : ℕ) : ∀ items,
    Gives (pyItemsToJs p limits stackUsed (some r) depth items)
      fun ws => DenoteAll p r items ws ↔ AllAtHome p r items
  | [] => gives_pure Iff.rfl
  | v :: rest => by
    refine (gives_denotes hk depth v).bind fun w hw => ?_
    exact (gives_items hk depth rest).bind fun ws hws => gives_pure (and_congr hw hws)

theorem gives_entries (hk : Kept p) (depth : ℕ) : ∀ entries,
    Gives (pyEntriesToJs p limits stackUsed (some r) depth entries)
      fun ws => DenoteIn p r entries ws ↔ AllIn p r entries
  | [] => gives_pure Iff.rfl
  | (key, v) :: rest => by
    refine gives_after _ fun _ => gives_after _ fun _ => gives_after _ fun _ => ?_
    refine (gives_denotes hk depth v).bind fun w hw => ?_
    exact (gives_entries hk depth rest).bind fun ws hws => gives_pure (and_congr hw hws)

end

/-- **When a reference keeps its meaning.** In every state that is reached before a counter
wraps around, a value that is converted for runtime `r` denotes there what its objects were
created for, or is refused, exactly when its functions belong to `r` or it is refused. -/
theorem references_keep_meaning_iff (h : Reachable p) (limits : Limits)
    (stackUsed : ℕ → Option ℕ) (r : ℕ) (v : Value) :
    (∀ w, pythonToJsValue p limits stackUsed (some r) v = .ok w → Denotes p r v w) ↔
      ((∃ w, pythonToJsValue p limits stackUsed (some r) v = .ok w) → v.AtHome p r) := by
  have hrun := @gives_denotes p limits stackUsed r h.kept 1 v 0 trivial
  unfold pythonToJsValue
  generalize pythonToJsValueInternal p limits stackUsed (some r) 1 v 0 = run at hrun
  obtain ⟨result, bytes⟩ := run
  cases result with
  | ok w =>
    constructor
    · rintro hall -
      exact hrun.mp (hall w rfl)
    · intro hhome w' hw'
      obtain rfl := Except.ok.inj hw'
      exact hrun.mpr (hhome ⟨w, rfl⟩)
  | error e => exact iff_of_true (fun w hw => nomatch hw) fun hw => nomatch hw.choose_spec

end

/-! ## Two runtimes -/

/-- A runtime that has handed out id 0 for a function. -/
def oneFunction (function : ℕ) : Rt := { functions := Dict.empty.set 0 function, nextFnId := 1 }

/-- Runtime 0 has given Python its function 10, as object 0. -/
def given : Process :=
  (start.setRt 0 (oneFunction 10)).setFunction 0 (some ⟨some 0, 0, false, 0, 10⟩)

/-- Runtime 1 has a function of its own under the same id. -/
def twoRuntimes : Process := given.setRt 1 (oneFunction 20)

theorem reachable_twoRuntimes : Reachable twoRuntimes := by
  have hunwrapped : ∀ {p : Process}, (∀ r, p.rt r = {} ∨ ∃ function, p.rt r = oneFunction function) →
      p.Unwrapped := by
    intro p h r
    rcases h r with h | ⟨function, h⟩
    · rw [h]
      decide
    · rw [h]
      exact ⟨show 1 + 1 < 2 ^ 32 by decide, show 1 + 1 < 2 ^ 32 by decide⟩
  have hgiven : ∀ r, given.rt r = {} ∨ ∃ function, given.rt r = oneFunction function := by
    intro r
    by_cases hr : r = 0
    · exact .inr ⟨10, by rw [given, setFunction, setRt_rt, if_pos hr]⟩
    · exact .inl (by rw [given, setFunction, setRt_rt, if_neg hr]; rfl)
  refine .tail (.tail (.tail .refl ⟨.registers 0 10 rfl, ?_⟩) ⟨.wraps 0 rfl rfl ?_ ?_, ?_⟩)
    ⟨.registers 1 20 rfl, ?_⟩
  · exact hunwrapped fun r => .inl rfl
  · exact List.not_mem_nil
  · rintro g o ⟨⟩
  · exact hunwrapped hgiven
  · exact hunwrapped hgiven

/-- Under its own runtime the function is what it was, and the theorem applies. -/
theorem references_keep_meaning_iff_twoRuntimes :
    pythonToJsValue twoRuntimes ⟨100, 1000, true, "", ""⟩ (fun _ => none) (some 0) (.function 0) =
        .ok (.function 0) ∧
      Denotes twoRuntimes 0 (.function 0) (.function 0) := by
  refine ⟨rfl, (references_keep_meaning_iff reachable_twoRuntimes ⟨100, 1000, true, "", ""⟩
    (fun _ => none) 0 _).mpr ?_ _ rfl⟩
  rintro - o ho
  cases ho
  rfl

/-- **A function that is passed to another runtime** is another function there. -/
theorem function_means_another :
    pythonToJsValue twoRuntimes ⟨100, 1000, true, "", ""⟩ (fun _ => none) (some 1) (.function 0) =
        .ok (.function 0) ∧
      (twoRuntimes.rt 1).functions.get? 0 = some 20 ∧
      ¬Denotes twoRuntimes 1 (.function 0) (.function 0) := by
  refine ⟨rfl, rfl, ?_⟩
  rintro ⟨o, ho, hhome, -⟩
  cases ho
  cases hhome

end Pydeno.Runtime.Transfer
