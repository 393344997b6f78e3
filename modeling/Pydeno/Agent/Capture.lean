import Pydeno.Agent.Model.Capture

/-!
# A captured stream is a beginning of what was said

`Holds` says what a stream keeps while calls arrive: its parts are the longest
beginning of the text said so far that fits the cap, and it is cut exactly when that
text does not fit or a line was marked. Each call keeps this (`Holds.add`, `Holds.mark`),
so every sequence of calls does (`holds_run`).
-/

namespace Pydeno.Agent.Capture

open List
open Utf8 (encodeAll)

/-! ## What was said -/

/-- The line of a call. -/
def Call.written : Call → List ℕ
  | .console args => line args
  | .markCut => []

/-- **What was said**: the sanitised lines up to the first mark. -/
def said (calls : List Call) : List ℕ :=
  (calls.takeWhile (! · matches .markCut)).flatMap Call.written

/-- **A stream that is cut**: a line was marked, or the lines do not fit. -/
def Over (maxBytes : ℕ) (calls : List Call) : Prop :=
  calls.any (· matches .markCut) ∨ maxBytes < (encodeAll (said calls)).length

/-- The characters a reader does not see as text, by their kind in Unicode. -/
def hidden : List (ℕ × ℕ) :=
  -- control characters, other than newline and tab
  [(0x00, 0x08), (0x0B, 0x1F), (0x7F, 0x9F),
    -- bidirectional controls
    (0x061C, 0x061C), (0x200E, 0x200F), (0x202A, 0x202E), (0x2066, 0x2069),
    -- format characters
    (0xAD, 0xAD), (0x0600, 0x0605), (0x06DD, 0x06DD), (0x070F, 0x070F), (0x0890, 0x0890),
    (0x0891, 0x0891), (0x08E2, 0x08E2), (0x180E, 0x180E), (0x200B, 0x200D), (0x2060, 0x2065),
    (0x206A, 0x206F), (0xFEFF, 0xFEFF), (0xFFF9, 0xFFFB), (0x110BD, 0x110BD),
    (0x110CD, 0x110CD), (0x13430, 0x1343F), (0x1BCA0, 0x1BCA3), (0x1D173, 0x1D17A),
    -- line and paragraph separators, variation selectors and tags
    (0x2028, 0x2029), (0x180B, 0x180D), (0x180F, 0x180F), (0xFE00, 0xFE0F), (0xE0000, 0xE007F),
    (0xE0100, 0xE01EF),
    -- surrogates
    (0xD800, 0xDFFF)]

/-- A character that is none of the hidden ones. -/
def Shown (c : ℕ) : Prop := ∀ r ∈ hidden, ¬ (r.1 ≤ c ∧ c ≤ r.2)

instance (c : ℕ) : Decidable (Shown c) := inferInstanceAs (Decidable (∀ r ∈ hidden, _))

/-! ## Lines -/

theorem shown_of_not_isControl {c : ℕ} (h : isControl c = false) : Shown c := by
  intro r hr hc
  have hcover : ∀ r ∈ hidden, ∃ q ∈ control, q.1 ≤ r.1 ∧ r.2 ≤ q.2 := by decide
  obtain ⟨q, hq, hlow, hhigh⟩ := hcover r hr
  have hin := (any_eq_false.mp h) q hq
  simp only [Bool.and_eq_true, decide_eq_true_eq] at hin
  omega

/-- What a line is made of: characters that are shown, and that have an encoding. -/
theorem of_mem_line {args : List (List (Fin 0x110000))} {c : ℕ} (hc : c ∈ line args) :
    Shown c ∧ Utf8.IsScalar c := by
  rcases mem_append.mp hc with hc | hc
  · obtain ⟨d, hd, rfl⟩ := mem_map.mp hc
    obtain ⟨x, _, rfl⟩ := mem_map.mp hd
    split
    · decide
    next hcontrol =>
      have hshown := shown_of_not_isControl (Bool.eq_false_iff.mpr hcontrol)
      have hsurrogate := hshown (0xD800, 0xDFFF) (by decide)
      refine ⟨hshown, ?_⟩
      unfold Utf8.IsScalar
      omega
  · rw [mem_singleton.mp hc]
    decide

/-! ## A stream and what was said on it -/

/-- **What holds of a stream** on which `whole` was said, with a mark or without. -/
structure Holds (maxBytes : ℕ) (whole : List ℕ) (marked : Bool) (s : Stream) : Prop where
  size : s.size = (encodeAll s.parts.flatten).length
  cut_iff : s.cut = true ↔ marked = true ∨ maxBytes < (encodeAll whole).length
  head : Utf8.Cut maxBytes whole s.parts.flatten

variable {maxBytes : ℕ} {whole l : List ℕ} {marked : Bool} {s : Stream}

/-- A line is added up to the cap, and none after a mark. -/
theorem Holds.add (h : Holds maxBytes whole marked s) (hl : Utf8.Scalars l) :
    Holds maxBytes (whole ++ if marked then [] else l) marked (s.add maxBytes l) := by
  have hcut := h.cut_iff
  cases marked with
  | true =>
    rw [if_pos rfl, append_nil, Stream.add, if_pos (hcut.mpr (.inl rfl))]
    exact h
  | false =>
    simp only [Bool.false_eq_true, false_or, if_false] at hcut ⊢
    unfold Stream.add
    by_cases hs : s.cut = true
    · rw [if_pos hs]
      refine ⟨h.size, iff_of_true hs (.inr ?_), h.head.of_lt (hcut.mp hs)⟩
      have := hcut.mp hs
      rw [Utf8.encodeAll_append, length_append]
      omega
    · have hfits : (encodeAll whole).length ≤ maxBytes := not_lt.mp fun hlt => hs (hcut.mpr hlt)
      have hwhole := h.head.eq hfits
      have hsize := h.size
      rw [hwhole] at hsize
      simp only [if_neg hs]
      split
      next hroom =>
        have hall : (encodeAll (whole ++ l)).length ≤ maxBytes := by
          rw [Utf8.encodeAll_append, length_append]
          omega
        refine ⟨?_, iff_of_false hs (by simpa using hall), ?_⟩
        · simp [hwhole, hsize]
        · simpa [hwhole] using Utf8.Cut.refl hall
      next hroom =>
        have hhead := Utf8.Cut.append hfits (Utf8.cut_decodeIgnore hl)
        rw [← hsize, ← cutUtf8] at hhead
        have hlong : maxBytes < (encodeAll (whole ++ l)).length := by
          rw [Utf8.encodeAll_append, length_append]
          omega
        split
        next hnil =>
          rw [hnil, append_nil] at hhead
          refine ⟨h.size, iff_of_true rfl (.inr hlong), ?_⟩
          simpa [hwhole] using hhead
        · refine ⟨?_, iff_of_true rfl (.inr hlong), ?_⟩
          · simp [hwhole, hsize]
          · simpa [hwhole] using hhead

/-- A mark ends the stream. -/
theorem Holds.mark (h : Holds maxBytes whole marked s) : Holds maxBytes whole true s.markCut :=
  ⟨h.size, iff_of_true rfl (.inl rfl), h.head⟩

/-- The text of a stream that is cut. -/
theorem text_of_cut (h : s.cut = true) : s.text = s.parts.flatten ++
      (if s.parts.flatten = [] ∨ s.parts.flatten.getLast? = some 0x0A then [] else [0x0A]) ++
        (truncatedMarker ++ [0x0A]) := by
  rw [Stream.text, if_pos h]
  by_cases hnil : s.parts.flatten = []
  · simp [hnil]
  · by_cases hlast : s.parts.flatten.getLast? = some 0x0A <;> simp [hnil, hlast]

/-- A stream shows what its parts show. -/
theorem shown_of_mem_text (h : ∀ c ∈ s.parts.flatten, Shown c) : ∀ c ∈ s.text, Shown c := by
  by_cases hs : s.cut = true
  · have hmarker : ∀ c ∈ truncatedMarker ++ [0x0A], Shown c := by decide
    rw [text_of_cut hs, forall_mem_append, forall_mem_append]
    refine ⟨⟨h, ?_⟩, hmarker⟩
    split <;> decide
  · rw [Stream.text, if_neg hs]
    exact h

/-! ## A sequence of calls -/

/-- What one more call says. -/
theorem said_snoc (calls : List Call) (c : Call) : said (calls ++ [c]) =
    said calls ++ if calls.any (· matches .markCut) then [] else c.written := by
  unfold said
  induction calls with
  | nil => cases c <;> simp [Call.written]
  | cons d calls ih => cases d <;> simp [ih]

/-- **Every sequence of calls** leaves a stream with a beginning of what was said on it. -/
theorem holds_run (maxBytes : ℕ) (calls : List Call) :
    Holds maxBytes (said calls) (calls.any (· matches .markCut)) (run maxBytes calls) := by
  induction calls using List.reverseRecOn with
  | nil => exact ⟨rfl, by simp [said, run, Stream.new], Utf8.Cut.refl (Nat.zero_le _)⟩
  | append_singleton calls c ih =>
    have hstep : run maxBytes (calls ++ [c]) = (run maxBytes calls).step maxBytes c :=
      foldl_concat ..
    rw [hstep, said_snoc, any_append]
    cases c with
    | console args => simpa [Call.written, Stream.step] using ih.add fun c hc => (of_mem_line hc).2
    | markCut => simpa [Call.written, Stream.step] using ih.mark

theorem shown_of_mem_said {calls : List Call} {c : ℕ} (hc : c ∈ said calls) : Shown c := by
  obtain ⟨call, _, hc⟩ := mem_flatMap.mp hc
  cases call with
  | console args => exact (of_mem_line hc).1
  | markCut => cases hc

/-- **The capture of a stream.** For every cap and every sequence of calls, a stream that
is not cut holds what was said on it, and one that is cut the longest beginning of that
which fits, a line break where it has none, and the marker line. It counts as truncated
exactly in the second case, and shows no hidden character. -/
theorem captured_text (maxBytes : ℕ) (calls : List Call) :
    ((run maxBytes calls).cut = true ↔ Over maxBytes calls) ∧
    (¬ Over maxBytes calls → (run maxBytes calls).text = said calls) ∧
    (Over maxBytes calls → ∃ head, Utf8.Cut maxBytes (said calls) head ∧
      (run maxBytes calls).text =
        head ++ (if head = [] ∨ head.getLast? = some 0x0A then [] else [0x0A]) ++
          (truncatedMarker ++ [0x0A])) ∧
    ∀ c ∈ (run maxBytes calls).text, Shown c := by
  obtain ⟨-, hcut, hhead⟩ := holds_run maxBytes calls
  refine ⟨hcut, fun h => ?_, fun h => ⟨_, hhead, text_of_cut (hcut.mpr h)⟩,
    shown_of_mem_text fun c hc => shown_of_mem_said (hhead.initial.subset hc)⟩
  rw [Stream.text, if_neg (mt hcut.mp h)]
  exact hhead.eq (not_lt.mp fun hlt => h (.inr hlt))

end Pydeno.Agent.Capture
