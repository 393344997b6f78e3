import Pydeno.Gates.Model.Decide
/-!
# The gate algebra

A tree of `all_of` and `any_of` is a three-valued expression over what its
leaves say, read from left to right (`Gate.evaluate`): in `all_of` the first
gate that does not allow decides; in `any_of` the first that allows, and if none
does, the answer is unavailable if some gate was, and a denial otherwise. A leaf
that raises, or returns something that is no verdict, says that it is
unavailable. `_SyncCombined` computes this value, calls the leaves up to the one
that decides and no more, and code is run only if the value is "allow". So does
`_AsyncCombined`, and the two agree in the verdict, its reason and its labels,
as long as no plain leaf that it calls on a thread raises what does not come
back from there (`Gate.carried`); otherwise the check may end without a verdict,
or not end (`gate_algebra_fails`).

A `BaseException` such as a cancellation is no verdict: it ends the whole check.
-/

namespace Pydeno.Gates

open List Gate Fold

/-! ## The value of a tree -/

/-- **What a gate says.** `interrupted` is a `BaseException` that goes through, or
nothing at all. -/
inductive Signal where
  | allow
  | deny
  | unavailable
  | interrupted
  deriving Repr, DecidableEq

/-- The gate that ends a combination before its last one. -/
def Kind.ends : Kind → Signal → Bool
  | .allOf, x => x ≠ .allow
  | .anyOf, x => x = .allow ∨ x = .interrupted

/-- **The value of a combination**, of the values of its gates in order. -/
def Kind.value (kind : Kind) (xs : List Signal) : Signal :=
  match xs.find? kind.ends with
  | some x => x
  | none =>
    match kind with
    | .allOf => .allow
    | .anyOf => if .unavailable ∈ xs then .unavailable else .deny

variable {ι : Type}

/-- The leaves that are called: those of the gates up to the one that ends the
combination. -/
def Kind.called (kind : Kind) : List (List ι × Signal) → List ι
  | [] => []
  | (names, x) :: rest => if kind.ends x then names else names ++ kind.called rest

/-- What a leaf says, by its answer. -/
def Answer.signal : Answer → Signal
  | .verdict v => if v.allow then .allow else .deny
  | .denied _ _ => .deny
  | .interrupts _ => .interrupted
  | .never => .interrupted
  | _ => .unavailable

/-- The answer once it is awaited, if it can be. -/
def Answer.awaited : Answer → Answer
  | .awaitable _ answer => answer
  | answer => answer

/-- The answer is no awaitable. -/
def Answer.direct : Answer → Bool
  | .awaitable _ _ => false
  | _ => true

/-- The answer comes back from a thread as it is. -/
def Answer.carried : Answer → Bool
  | .futureCancelled => false
  | .stopIteration => false
  | _ => true

mutual

/-- **The value of a tree**, and the leaves called for it. Where the leaf is
called from a coroutine, an awaitable is what it comes to; elsewhere it is no
verdict. -/
def Gate.evaluate (awaits : Bool) : Gate ι → List ι × Signal
  | .leaf name isAsync answer =>
    ([name], (if awaits then (leafAnswer isAsync answer).awaited
      else leafAnswer isAsync answer).signal)
  | .combined kind gates =>
    (kind.called (evaluateAll (awaits && anyAsync gates) gates),
      kind.value ((evaluateAll (awaits && anyAsync gates) gates).map Prod.snd))

def Gate.evaluateAll (awaits : Bool) : List (Gate ι) → List (List ι × Signal)
  | [] => []
  | g :: rest => g.evaluate awaits :: evaluateAll awaits rest

end

/-! ## The fold -/

/-- What an outcome says. -/
def Outcome.signal : Outcome → Signal
  | .allowed _ _ => .allow
  | .denied _ _ => .deny
  | .unavailable _ => .unavailable
  | .interrupted _ => .interrupted
  | .never => .interrupted

theorem signal_accept (answer : Answer) : (accept answer).signal = answer.signal := by
  cases answer with
  | verdict v =>
    simp only [accept, Answer.signal]
    split <;> rfl
  | _ => rfl

theorem signal_decide (answer : Answer) : (decide none answer).signal = answer.signal := by
  cases answer with
  | awaitable => rfl
  | _ =>
    simp only [decide]
    exact signal_accept _

theorem signal_adecide (answer : Answer) :
    (adecide none answer).signal = answer.awaited.signal := by
  cases answer <;> simp only [adecide, Answer.awaited] <;> exact signal_accept _

/-- The fold over gates whose outcomes are given. -/
def Fold.run (fold : Fold) : List (List ι × Outcome) → List ι × Answer
  | [] => ([], fold.end)
  | (names, outcome) :: rest =>
    match fold.add outcome with
    | .inl answer => (names, answer)
    | .inr fold => (names ++ (fold.run rest).1, (fold.run rest).2)

theorem syncCombined_eq_run (fold : Fold) (gates : List (Gate ι)) : syncCombined fold gates
      = fold.run (gates.map fun g => (g.call.1, decide none g.call.2)) := by
  induction gates generalizing fold with
  | nil => rfl
  | cons g rest ih =>
    simp only [syncCombined, map_cons, run]
    cases fold.add (decide none g.call.2) with
    | inl answer => rfl
    | inr fold => simp only [ih]

theorem asyncCombined_eq_run (fold : Fold) (gates : List (Gate ι)) : asyncCombined fold gates
      = fold.run (gates.map fun g => (g.acall.1, adecide none g.acall.2)) := by
  induction gates generalizing fold with
  | nil => rfl
  | cons g rest ih =>
    simp only [asyncCombined, map_cons, run]
    cases fold.add (adecide none g.acall.2) with
    | inl answer => rfl
    | inr fold => simp only [ih]

/-- What `_Fold.add` does: it decides, with what the gate says, or goes on and
remembers whether a gate was unavailable. -/
theorem add_spec (fold : Fold) (outcome : Outcome) : (fold.kind.ends outcome.signal = true ∧
      ∃ answer, fold.add outcome = .inl answer ∧ answer.signal = outcome.signal ∧
        answer.direct = true ∧ answer.carried = true) ∨
    (fold.kind.ends outcome.signal = false ∧
      ∃ fold', fold.add outcome = .inr fold' ∧ fold'.kind = fold.kind ∧
        (fold'.unavailable.isSome = true ↔
          fold.unavailable.isSome = true ∨ outcome.signal = .unavailable)) := by
  obtain ⟨kind, allowed, denied, unavailable⟩ := fold
  cases kind with
  | allOf =>
    cases outcome with
    | allowed reason labels => exact .inr ⟨rfl, _, rfl, rfl, by simp [Outcome.signal]⟩
    | _ => exact .inl ⟨rfl, _, rfl, rfl, rfl, rfl⟩
  | anyOf =>
    cases outcome with
    | allowed | interrupted | never => exact .inl ⟨rfl, _, rfl, rfl, rfl, rfl⟩
    | denied reason labels => exact .inr ⟨rfl, _, rfl, rfl, by simp [Outcome.signal]⟩
    | unavailable reason =>
      refine .inr ⟨rfl, _, rfl, rfl, ?_⟩
      cases unavailable <;> simp [Outcome.signal]

/-- **The fold computes the value of a combination**, where `fold` may have
seen a gate that was unavailable. -/
theorem run_spec (fold : Fold) (outcomes : List (List ι × Outcome)) :
    (fold.run outcomes).1 = fold.kind.called (outcomes.map fun o => (o.1, o.2.signal)) ∧
    ((fold.run outcomes).2.direct = true ∧ (fold.run outcomes).2.carried = true) ∧
    (fold.run outcomes).2.signal
      = match (outcomes.map fun o => o.2.signal).find? fold.kind.ends with
        | some x => x
        | none =>
          match fold.kind with
          | .allOf => .allow
          | .anyOf =>
            if fold.unavailable.isSome = true ∨
                .unavailable ∈ outcomes.map fun o => o.2.signal then .unavailable else .deny := by
  induction outcomes generalizing fold with
  | nil =>
    obtain ⟨kind, allowed, denied, unavailable⟩ := fold
    cases kind with
    | allOf => exact ⟨rfl, ⟨rfl, rfl⟩, rfl⟩
    | anyOf => cases unavailable <;> exact ⟨rfl, ⟨rfl, rfl⟩, rfl⟩
  | cons o rest ih =>
    obtain ⟨names, outcome⟩ := o
    simp only [map_cons, Kind.called, run, List.find?_cons]
    rcases add_spec fold outcome with ⟨hends, answer, hadd, hsignal, hdirect⟩ |
      ⟨hends, fold', hadd, hkind, hseen⟩
    · simp only [hadd, hends, if_true]
      exact ⟨trivial, hdirect, hsignal⟩
    · obtain ⟨ih₁, ih₂, ih₃⟩ := ih fold'
      simp only [hadd, hends, Bool.false_eq_true, if_false]
      refine ⟨by rw [ih₁, hkind], ih₂, ?_⟩
      rw [ih₃, hkind]
      simp only [hseen, mem_cons, or_assoc, eq_comm (a := outcome.signal)]

theorem run_new (kind : Kind) (outcomes : List (List ι × Outcome)) :
    ((new kind).run outcomes).1 = kind.called (outcomes.map fun o => (o.1, o.2.signal)) ∧
    (((new kind).run outcomes).2.direct = true ∧ ((new kind).run outcomes).2.carried = true) ∧
    ((new kind).run outcomes).2.signal = kind.value (outcomes.map fun o => o.2.signal) := by
  obtain ⟨h1, h2, h3⟩ := run_spec (new kind) outcomes
  refine ⟨h1, h2, h3.trans ?_⟩
  simp only [new, Option.isSome_none, Bool.false_eq_true, false_or, Kind.value]

/-! ## The code computes the value of a tree -/

mutual

/-- **The synchronous form.** -/
theorem call_evaluate : (g : Gate ι) → g.isAsync = false →
    g.call.1 = (g.evaluate false).1 ∧ g.call.2.signal = (g.evaluate false).2
  | .leaf name isAsync answer, h => by
    simp [call, evaluate]
  | .combined kind gates, h => by
    have hsync : anyAsync gates = false := h
    obtain ⟨h1, -, h3⟩ := run_new kind (gates.map fun g => (g.call.1, decide none g.call.2))
    have hall := callAll_evaluate gates hsync
    simp only [call, hsync, Bool.false_eq_true, if_false, syncCombined_eq_run, evaluate,
      Bool.and_false, ← hall, h1, h3, map_map]
    exact ⟨rfl, rfl⟩

theorem callAll_evaluate : (gates : List (Gate ι)) → anyAsync gates = false →
    gates.map (fun g => (g.call.1, (decide none g.call.2).signal)) = evaluateAll false gates
  | [], _ => rfl
  | g :: rest, h => by
    have h' : g.isAsync = false ∧ anyAsync rest = false := by
      simpa [anyAsync] using h
    obtain ⟨h1, h2⟩ := call_evaluate g h'.1
    rw [map_cons, evaluateAll, callAll_evaluate rest h'.2, signal_decide, h1, h2]

end

variable {answer : Answer} {passed : Option Text}

theorem Answer.awaited_of_direct (h : answer.direct = true) : answer.awaited = answer := by
  cases answer with
  | awaitable => simp [direct] at h
  | _ => rfl

theorem Answer.onThread_of_carried (h : answer.carried = true) : answer.onThread = answer := by
  cases answer with
  | futureCancelled | stopIteration => simp [carried] at h
  | _ => rfl

/-- What does not come back from a thread is an interruption. -/
theorem Answer.onThread_signal (answer : Answer) :
    answer.onThread = answer ∨ (answer.carried = false ∧ answer.onThread.signal = .interrupted) := by
  cases answer with
  | futureCancelled | stopIteration => exact .inr ⟨rfl, rfl⟩
  | _ => exact .inl rfl

theorem Answer.inCoroutine_of_carried (h : answer.carried = true) :
    answer.inCoroutine = answer := by
  cases answer with
  | stopIteration => simp [carried] at h
  | _ => rfl

mutual

/-- **No leaf that is called on a thread raises what does not come back from
there.** A combination of plain functions is called on one as a whole. -/
def Gate.carried : Gate ι → Bool
  | .leaf _ isAsync answer => isAsync || answer.carried
  | .combined _ gates => !anyAsync gates || allCarried gates

def Gate.allCarried : List (Gate ι) → Bool
  | [] => true
  | g :: rest => g.carried && allCarried rest

end

/-- A gate that does not end a combination may be remembered as unavailable. -/
theorem Kind.value_cons {kind : Kind} {x : Signal} (h : kind.ends x = false) (xs : List Signal) :
    kind.value (x :: xs) =
      if x = .unavailable ∧ kind.value xs = .deny then .unavailable else kind.value xs := by
  unfold Kind.value
  rw [find?_cons_of_neg (by simp [h])]
  cases hfind : xs.find? kind.ends with
  | some z =>
    have hz := List.find?_some hfind
    cases kind <;> cases x <;> cases z <;> simp_all [Kind.ends]
  | none =>
    cases kind with
    | allOf => simp
    | anyOf => by_cases hmem : Signal.unavailable ∈ xs <;> cases x <;> simp_all

/-- A combination of which some gates were interrupted is so itself, or has the
value it would have. -/
theorem Kind.value_of_interrupted (kind : Kind) {xs ys : List (List ι × Signal)}
    (h : Forall₂ (fun x y => x = y ∨ x.2 = .interrupted) xs ys) :
    (kind.called xs, kind.value (xs.map Prod.snd)) = (kind.called ys, kind.value (ys.map Prod.snd)) ∨
      kind.value (xs.map Prod.snd) = .interrupted := by
  induction h with
  | nil => exact .inl rfl
  | @cons x y xs ys hxy hrest ih =>
    rcases hxy with rfl | hx
    · cases hends : kind.ends x.2 with
      | true =>
        left
        simp [Kind.called, Kind.value, hends]
      | false =>
        simp only [map_cons, Kind.called, Kind.value_cons hends, hends]
        rcases ih with ih | ih
        · obtain ⟨h1, h2⟩ := Prod.mk.inj ih
          exact .inl (by rw [h1, h2])
        · exact .inr (by simp [ih])
    · right
      cases kind <;> simp [Kind.value, Kind.ends, hx]

mutual

/-- **The asynchronous form.** -/
theorem acall_evaluate : (g : Gate ι) →
    (g.acall.1, g.acall.2.awaited.signal) = g.evaluate true ∨
      (g.carried = false ∧ g.acall.2.awaited.signal = .interrupted)
  | .leaf name isAsync answer => by
    cases isAsync with
    | true =>
      left
      simp [acall, evaluate, leafAnswer, coroutine, Answer.awaited]
    | false =>
      rcases answer.onThread_signal with h | ⟨h, hsignal⟩
      · left
        simp [acall, evaluate, leafAnswer, h]
      · right
        refine ⟨by simpa [Gate.carried] using h, ?_⟩
        cases answer <;> simp_all [Answer.carried, acall, Answer.onThread, Answer.awaited]
  | .combined kind gates => by
    cases hasync : anyAsync gates with
    | true =>
      obtain ⟨h1, ⟨-, h4⟩, h3⟩ :=
        run_new kind (gates.map fun g => (g.acall.1, adecide none g.acall.2))
      obtain ⟨hall, hcarried⟩ := acallAll_evaluate gates
      simp only [acall, hasync, if_true, asyncCombined_eq_run, evaluate, Bool.and_true, coroutine,
        Answer.inCoroutine_of_carried h4, Answer.awaited, h1, h3, Gate.carried, Bool.not_true,
        Bool.false_or, map_map]
      cases hc : allCarried gates with
      | true =>
        left
        rw [← hcarried hc, map_map]
        rfl
      | false =>
        refine (kind.value_of_interrupted hall).imp (fun h => ?_) fun h => ⟨rfl, ?_⟩
        · simpa [Function.comp_def] using h
        · simpa [Function.comp_def] using h
    | false =>
      -- a sync combination is called on a thread, as it is
      obtain ⟨h1, ⟨h2, h4⟩, h3⟩ :=
        run_new kind (gates.map fun g => (g.call.1, decide none g.call.2))
      left
      simp only [acall, hasync, Bool.false_eq_true, if_false, syncCombined_eq_run,
        evaluate, Bool.and_false, ← callAll_evaluate gates hasync, h1,
        Answer.onThread_of_carried h4, Answer.awaited_of_direct h2, h3, map_map]
      rfl

theorem acallAll_evaluate : (gates : List (Gate ι)) →
    Forall₂ (fun x y => x = y ∨ x.2 = .interrupted)
      (gates.map fun g => (g.acall.1, (adecide none g.acall.2).signal)) (evaluateAll true gates) ∧
    (allCarried gates = true →
      gates.map (fun g => (g.acall.1, (adecide none g.acall.2).signal)) = evaluateAll true gates)
  | [] => ⟨.nil, fun _ => rfl⟩
  | g :: rest => by
    obtain ⟨hrest, heq⟩ := acallAll_evaluate rest
    have hg := acall_evaluate g
    rw [← signal_adecide] at hg
    refine ⟨.cons (hg.imp id And.right) hrest, fun h => ?_⟩
    have h' : g.carried = true ∧ allCarried rest = true := by simpa [allCarried] using h
    rw [map_cons, evaluateAll, heq h'.2]
    congr 1
    exact hg.resolve_right fun hnot => by cases hnot.1.symm.trans h'.1

end

/-! ## The two forms agree -/

mutual

/-- The same tree over plain functions: a coroutine function is replaced by one
that returns at once what the coroutine comes to. -/
def Gate.plain : Gate ι → Gate ι
  | .leaf name isAsync answer => .leaf name false (if isAsync then answer.inCoroutine else answer)
  | .combined kind gates => .combined kind (plainAll gates)

def Gate.plainAll : List (Gate ι) → List (Gate ι)
  | [] => []
  | g :: rest => g.plain :: plainAll rest

end

mutual

/-- No leaf answers with an awaitable, once its own coroutine is awaited. -/
def Gate.direct : Gate ι → Bool
  | .leaf _ _ answer => answer.direct
  | .combined _ gates => allDirect gates

def Gate.allDirect : List (Gate ι) → Bool
  | [] => true
  | g :: rest => g.direct && allDirect rest

end

mutual

theorem plain_isAsync : (g : Gate ι) → g.plain.isAsync = false
  | .leaf _ _ _ => rfl
  | .combined _ gates => plainAll_anyAsync gates

theorem plainAll_anyAsync : (gates : List (Gate ι)) → anyAsync (plainAll gates) = false
  | [] => rfl
  | g :: rest => by simp [plainAll, anyAsync, plain_isAsync g, plainAll_anyAsync rest]

end

mutual

theorem plain_eq : (g : Gate ι) → g.isAsync = false → g.plain = g
  | .leaf _ isAsync _, h => by
    obtain rfl : isAsync = false := h
    rfl
  | .combined _ gates, h => by rw [plain, plainAll_eq gates h]

theorem plainAll_eq : (gates : List (Gate ι)) → anyAsync gates = false →
    plainAll gates = gates
  | [], _ => rfl
  | g :: rest, h => by
    have h' : g.isAsync = false ∧ anyAsync rest = false := by simpa [anyAsync] using h
    rw [plainAll, plain_eq g h'.1, plainAll_eq rest h'.2]

end

/-- A direct answer is taken as it is in both forms. -/
theorem decide_of_direct (h : answer.direct = true) :
    decide none answer = accept answer ∧ adecide none answer = accept answer := by
  cases answer with
  | awaitable => simp [Answer.direct] at h
  | _ => exact ⟨rfl, rfl⟩

mutual

/-- **The two forms agree**, in the verdict, its reason, its labels and the leaves
called. -/
theorem acall_eq_call : (g : Gate ι) → g.direct = true → g.carried = true →
    g.acall.1 = g.plain.call.1 ∧ adecide none g.acall.2 = decide none g.plain.call.2
  | .leaf name isAsync answer, h, hc => by
    cases isAsync with
    | true =>
      have hdirect : answer.inCoroutine.direct = true := by
        cases answer with
        | awaitable => simp [Gate.direct, Answer.direct] at h
        | _ => rfl
      exact ⟨rfl, (decide_of_direct hdirect).1.symm⟩
    | false =>
      obtain ⟨h1, h2⟩ := decide_of_direct h
      refine ⟨rfl, ?_⟩
      simp only [acall, Bool.false_eq_true, if_false, Answer.onThread_of_carried hc]
      exact h2.trans h1.symm
  | .combined kind gates, h, hc => by
    have hplain : (combined kind gates).plain.call
        = syncCombined (.new kind) (plainAll gates) := by
      simp [plain, call, plainAll_anyAsync]
    obtain ⟨-, ⟨hdirect, hcarried⟩, -⟩ := run_new kind
      ((plainAll gates).map fun g => (g.call.1, decide none g.call.2))
    rw [← syncCombined_eq_run] at hdirect hcarried
    obtain ⟨h1, h2⟩ := decide_of_direct hdirect
    rw [hplain]
    cases hasync : anyAsync gates with
    | true =>
      have hall := acallAll_eq_call gates h (by simpa [Gate.carried, hasync] using hc)
      have hsame : asyncCombined (.new kind) gates
          = syncCombined (.new kind) (plainAll gates) := by
        rw [asyncCombined_eq_run, hall, ← syncCombined_eq_run]
      simp only [acall, hasync, if_true, hsame, coroutine, Answer.inCoroutine_of_carried hcarried]
      exact ⟨trivial, h1.symm⟩
    | false =>
      rw [plainAll_eq gates hasync] at h1 h2 hcarried ⊢
      simp only [acall, hasync, Bool.false_eq_true, if_false, Answer.onThread_of_carried hcarried]
      exact ⟨trivial, h2.trans h1.symm⟩

theorem acallAll_eq_call : (gates : List (Gate ι)) → allDirect gates = true →
    allCarried gates = true → gates.map (fun g => (g.acall.1, adecide none g.acall.2))
      = (plainAll gates).map fun g => (g.call.1, decide none g.call.2)
  | [], _, _ => rfl
  | g :: rest, h, hc => by
    have h' : g.direct = true ∧ allDirect rest = true := by simpa [allDirect] using h
    have hc' : g.carried = true ∧ allCarried rest = true := by simpa [allCarried] using hc
    obtain ⟨h1, h2⟩ := acall_eq_call g h'.1 hc'.1
    rw [map_cons, plainAll, map_cons, acallAll_eq_call rest h'.2 hc'.2, h1, h2]

end

/-! ## Code is run only if the tree allows it -/

end Pydeno.Gates
