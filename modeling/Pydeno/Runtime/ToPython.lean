import Pydeno.Runtime.Model.ToPython
/-!
# Who owns the handles of a value

A conversion that succeeds makes one wrapper for each handle that stands in what it renders
(`converts`), and a failed one leaves what it has not wrapped to `release_unowned_handles`.
An object that is read by its tag is not rendered as a whole: what else it holds is neither
wrapped nor released.
-/

namespace Pydeno.Runtime.ToPython

open List

open Pydeno.Runtime.Convert (JSValue Handle)
open Wire (ascii)

mutual

/-- **The handles in the part of a value that is rendered.** -/
def rendered : JSValue → List Handle
  | .function id => [.function id]
  | .jsStream id => [.stream id]
  | .array items => renderedOf items
  | .set items => renderedOf items
  | .object entries =>
    match tagged entries with
    | .set => renderedMembers entries
    | .plain => renderedIn entries
    | _ => []
  | _ => []

def renderedOf : List JSValue → List Handle
  | [] => []
  | v :: rest => rendered v ++ renderedOf rest

def renderedMembers : List (List ℕ × JSValue) → List Handle
  | [] => []
  | (key, .array items) :: rest =>
    if key = ascii "values" then renderedOf items else renderedMembers rest
  | _ :: rest => renderedMembers rest

def renderedIn : List (List ℕ × JSValue) → List Handle
  | [] => []
  | (_, v) :: rest => rendered v ++ renderedIn rest

end

section

variable {host : Host} {α β : Type} {m : Prog (List Handle) String α} {hs hs' : List Handle}
variable {Q : α → Prop} {R : β → Prop}

/-- **A conversion tracks `hs`** and gives what meets `Q`; where it fails it untracks
nothing. -/
def Tracks (m : Prog (List Handle) String α) (hs : List Handle) (Q : α → Prop) : Prop :=
  ∀ tracked, Prog.Triple (· = tracked) m (fun s => ∀ h ∈ tracked, h ∈ s)
    fun o s => s = tracked ++ hs ∧ Q o

theorem tracks_pure {o : α} (h : Q o) : Tracks (pure o) [] Q := by
  intro tracked
  refine Prog.triple_pure ?_
  rintro s rfl
  exact ⟨(append_nil s).symm, h⟩

theorem tracks_fail {e : String} : Tracks (Prog.fail e) hs Q := by
  intro tracked
  refine Prog.triple_fail ?_
  rintro s rfl h hm
  exact hm

theorem tracks_ofExcept (x : Except String α) : Tracks (Prog.ofExcept x) [] fun _ => True := by
  cases x with
  | ok o => exact tracks_pure trivial
  | error e => exact tracks_fail

theorem tracks_ofOption (x : Option α) (e : String) :
    Tracks (Prog.ofOption x e) [] fun _ => True := by
  cases x with
  | none => exact tracks_fail
  | some o => exact tracks_pure trivial

theorem tracks_make {o : Obj} {Q : Obj → Prop} (h : Q o) : Tracks (make host o) [] Q := by
  rintro tracked s rfl
  simp only [make, append_nil]
  split
  next o' s' heq =>
    obtain ⟨hif, rfl⟩ := Prod.mk.inj heq
    split at hif
    · cases hif
    · cases hif
      exact ⟨rfl, h⟩
  next e s' heq =>
    obtain ⟨-, rfl⟩ := Prod.mk.inj heq
    exact fun _ hm => hm

/-- **One conversion after another.** -/
theorem Tracks.bind {f : α → Prog (List Handle) String β} (h : Tracks m hs Q)
    (hf : ∀ o, Q o → Tracks (f o) hs' R) : Tracks (m >>= f) (hs ++ hs') R := by
  intro tracked
  refine Prog.Triple.bind (h tracked) fun o s hs'' => ?_
  obtain ⟨rfl, ho⟩ := hs''
  have hnext := hf o ho (tracked ++ hs) (tracked ++ hs) rfl
  rw [append_assoc] at hnext
  refine Prog.Triple.conseq (P := (· = tracked ++ hs)) (F := fun s => ∀ h ∈ tracked ++ hs, h ∈ s)
    (Q := fun o' s => s = tracked ++ (hs ++ hs') ∧ R o') ?_ (fun _ hs => hs) ?_ (fun _ _ h => h)
    _ rfl
  · rintro s rfl
    exact hnext
  · exact fun s hin x hx => hin x (mem_append_left _ hx)

/-- A conversion before one that wraps nothing. -/
theorem Tracks.andMake {f : α → Prog (List Handle) String β} (h : Tracks m hs Q)
    (hf : ∀ o, Q o → Tracks (f o) [] R) : Tracks (m >>= f) hs R := by
  have hboth := h.bind hf
  rwa [append_nil] at hboth

theorem tracks_wrap (h : Handle) : Tracks (wrap host h) [h] fun o => o.wrappers = [h] := by
  refine Tracks.bind (Q := fun o => o.wrappers = [h]) (tracks_make rfl) fun o ho => ?_
  rintro tracked s rfl
  exact ⟨rfl, ho⟩

theorem tracks_epochMsToDatetime (ms : ℤ) :
    Tracks (epochMsToDatetime host ms) [] fun o => o.wrappers = [] := by
  unfold epochMsToDatetime
  split
  · exact tracks_make rfl
  · exact tracks_fail

theorem tracks_addMember (o : Obj) : Tracks (addMember o) [] fun _ => True := by
  cases o with
  | list _ | set _ | dict _ => exact tracks_fail
  | _ => exact tracks_pure trivial

mutual

/-- **A conversion wraps every handle in what it renders**, each once. -/
theorem converts : ∀ v,
    Tracks (jsValueToPythonInner host v) (rendered v) fun o => o.wrappers = rendered v
  | .undefined | .null | .bool _ | .int _ | .bigInt _ | .float _ | .string _ | .bytes _ =>
    tracks_make rfl
  | .array items => by
    rw [jsValueToPythonInner, rendered]
    exact (converts_items items).andMake fun os h => tracks_make (by rw [Obj.wrappers, h])
  | .set items => by
    rw [jsValueToPythonInner, rendered]
    exact (converts_pyset items).andMake fun os h => tracks_make (by rw [Obj.wrappers, h])
  | .object entries => by
    rw [jsValueToPythonInner, rendered]
    cases tagged entries with
    | undefined => exact tracks_make rfl
    | date epoch => exact (tracks_ofExcept _).bind fun ms _ => tracks_epochMsToDatetime ms
    | set =>
      exact (converts_members entries).andMake fun os h => tracks_make (by rw [Obj.wrappers, h])
    | bigInt text => exact (tracks_ofOption _ _).bind fun z _ => tracks_make rfl
    | plain =>
      exact (converts_entries entries).andMake fun es h => tracks_make (by rw [Obj.wrappers, h])
  | .date ms => tracks_epochMsToDatetime ms
  | .function _ | .jsStream _ => tracks_wrap _
  | .pyStream _ => tracks_fail

theorem converts_items : ∀ items,
    Tracks (toItems host items) (renderedOf items) fun os => wrappersOf os = renderedOf items
  | [] => tracks_pure rfl
  | v :: rest => by
    rw [toItems, renderedOf]
    refine (converts v).bind fun o ho => (converts_items rest).andMake fun os hos => ?_
    exact tracks_pure (by rw [wrappersOf, ho, hos])

theorem converts_pyset : ∀ items,
    Tracks (jsItemsToPyset host items) (renderedOf items) fun os => wrappersOf os = renderedOf items
  | [] => tracks_pure rfl
  | v :: rest => by
    rw [jsItemsToPyset, renderedOf]
    refine (converts v).bind fun o ho => ?_
    refine Tracks.bind (tracks_addMember o) fun _ _ => ?_
    exact (converts_pyset rest).andMake fun os hos => tracks_pure (by rw [wrappersOf, ho, hos])

theorem converts_members : ∀ entries,
    Tracks (taggedMembers host entries) (renderedMembers entries)
      fun os => wrappersOf os = renderedMembers entries
  | [] => tracks_pure rfl
  | (key, .array items) :: rest => by
    rw [taggedMembers, renderedMembers]
    split
    · exact converts_pyset items
    · exact converts_members rest
  | (_, .undefined) :: rest | (_, .null) :: rest | (_, .bool _) :: rest | (_, .int _) :: rest
  | (_, .bigInt _) :: rest | (_, .float _) :: rest | (_, .string _) :: rest
  | (_, .bytes _) :: rest | (_, .set _) :: rest | (_, .object _) :: rest | (_, .date _) :: rest
  | (_, .function _) :: rest | (_, .jsStream _) :: rest | (_, .pyStream _) :: rest =>
    converts_members rest

theorem converts_entries : ∀ entries,
    Tracks (toEntries host entries) (renderedIn entries)
      fun es => wrappersIn es = renderedIn entries
  | [] => tracks_pure rfl
  | (key, v) :: rest => by
    rw [toEntries, renderedIn]
    refine (converts v).bind fun o ho => (converts_entries rest).andMake fun es hes => ?_
    exact tracks_pure (by rw [wrappersIn, ho, hes])

end

/-- **Every handle of a value is owned** after its conversion: by one wrapper that is
reachable from what was given, or, when the conversion failed, by a wrapper or by the
runtime, which was sent its release. -/
def Owned (host : Host) (v : JSValue) (tracked : List Handle) : Prop :=
  match jsValueToPython host v tracked with
  | (.ok o, tracked', _) => ∀ h ∈ v.handles, h ∈ tracked' ∧ o.wrappers.count h = 1
  | (.error _, tracked', released) => ∀ h ∈ v.handles, h ∈ tracked' ∨ h ∈ released

/-- **When the handles of a value are owned**: unless the conversion fails, exactly when each
stands once in the part of the value that is rendered. -/
theorem handles_owned_iff (host : Host) (v : JSValue) (tracked : List Handle) :
    Owned host v tracked ↔
      ((jsValueToPython host v tracked).1.isOk = true →
        ∀ h ∈ v.handles, (rendered v).count h = 1) := by
  have hrun := @converts host v tracked tracked rfl
  unfold Owned jsValueToPython
  generalize jsValueToPythonInner host v tracked = run at hrun
  obtain ⟨result, tracked'⟩ := run
  cases result with
  | ok o =>
    obtain ⟨rfl, ho⟩ := hrun
    simp only [ho, Except.isOk, Except.toBool, forall_const]
    refine forall₂_congr fun h _ => ⟨And.right, fun hone => ⟨?_, hone⟩⟩
    exact mem_append_right _ (count_pos_iff.mp (by omega))
  | error e =>
    refine iff_of_true (fun h hh => ?_) nofun
    by_cases ht : h ∈ tracked'
    · exact .inl ht
    · exact .inr (mem_filter.mpr ⟨hh, decide_eq_true ht⟩)

end

/-- A function beside the tag that reads the object as `undefined`. -/
def hidden : JSValue :=
  .object [(ascii "__pydeno_type", .string (ascii "Undefined")), (ascii "f", .function 7)]

/-- The conversion succeeds, and nothing owns the function. -/
theorem handle_lost_beside_tag :
    jsValueToPython ⟨fun _ => none, fun _ _ => false⟩ hidden [] = (.ok .undefined, [], []) ∧
      ¬Owned ⟨fun _ => none, fun _ _ => false⟩ hidden [] := by
  have hrun : jsValueToPython ⟨fun _ => none, fun _ _ => false⟩ hidden [] =
      (.ok .undefined, [], []) := rfl
  refine ⟨hrun, fun h => ?_⟩
  unfold Owned at h
  rw [hrun] at h
  exact not_mem_nil (h (.function 7) (by decide)).1

end Pydeno.Runtime.ToPython
