import Mathlib
/-!
# Paths of URLs and the ways to read them

A path is text, as code points. Whoever serves it may read it in its own way:
decode percent escapes, once or again, take a backslash for a slash, cut path
parameters off its segments, stop at a NUL, resolve dot segments; and do any of
this in any order. A way to read is a list of such steps (`Step`, `read`).

Where a path is clean (`Clean`) every way to read it comes to the same: its
segments, decoded or not (`read_eq`, `segments_decode`).
-/

namespace Pydeno.UrlPath

open List

abbrev Text := List ℕ

/-! ## Characters -/

def percent : ℕ := 0x25

def dot : ℕ := 0x2E

def slash : ℕ := 0x2F

def semicolon : ℕ := 0x3B

def backslash : ℕ := 0x5C

/-- The value of a hexadecimal digit. -/
def hexValue (c : ℕ) : Option ℕ :=
  if 0x30 ≤ c ∧ c ≤ 0x39 then some (c - 0x30)
  else if 0x41 ≤ c ∧ c ≤ 0x46 then some (c - 0x41 + 10)
  else if 0x61 ≤ c ∧ c ≤ 0x66 then some (c - 0x61 + 10)
  else none

/-- **The digits of a value**, in either case. -/
theorem hexValue_eq_some {c x : ℕ} (h : hexValue c = some x) :
    (x < 10 ∧ c = 0x30 + x) ∨ (10 ≤ x ∧ x < 16 ∧ (c = 0x37 + x ∨ c = 0x57 + x)) := by
  unfold hexValue at h
  split at h
  · cases h
    omega
  · split at h
    · cases h
      omega
    · split at h
      · cases h
        omega
      · cases h

theorem ne_slash_of_hexValue {c x : ℕ} (h : hexValue c = some x) : c ≠ slash := by
  rintro rfl
  cases h

/-! ## Percent escapes -/

/-- **Percent decoding.** A percent sign that begins no escape is kept. -/
def decode : Text → Text
  | c :: a :: b :: rest =>
    if c = percent then
      match hexValue a, hexValue b with
      | some x, some y => (16 * x + y) :: decode rest
      | _, _ => c :: decode (a :: b :: rest)
    else c :: decode (a :: b :: rest)
  | rest => rest

/-- **Every percent sign begins an escape**, and the bytes of the escapes are
fine. -/
inductive Escaped (ok : ℕ → Prop) : Text → Prop
  | nil : Escaped ok []
  | char {c : ℕ} {p : Text} (hc : c ≠ percent) (h : Escaped ok p) : Escaped ok (c :: p)
  | escape {a b x y : ℕ} {p : Text} (ha : hexValue a = some x) (hb : hexValue b = some y)
      (hok : ok (16 * x + y)) (h : Escaped ok p) : Escaped ok (percent :: a :: b :: p)

@[simp] theorem decode_nil : decode [] = [] := rfl

theorem decode_of_ne {c : ℕ} (h : c ≠ percent) (p : Text) : decode (c :: p) = c :: decode p := by
  match p with
  | [] | [_] => rfl
  | _ :: _ :: _ => rw [decode, if_neg h]

theorem decode_escape {a b x y : ℕ} (ha : hexValue a = some x) (hb : hexValue b = some y)
    (rest : Text) : decode (percent :: a :: b :: rest) = (16 * x + y) :: decode rest := by
  rw [decode, if_pos rfl, ha, hb]

/-- There is nothing to decode without a percent sign. -/
theorem decode_eq_self {p : Text} (h : percent ∉ p) : decode p = p := by
  induction p with
  | nil => rfl
  | cons c p ih =>
    rw [mem_cons, not_or] at h
    rw [decode_of_ne (Ne.symm h.1), ih h.2]

section

variable {ok : ℕ → Prop} {p : Text}

variable (h : Escaped ok p)
include h

/-- **What is in a text that was decoded**: characters of the text, and the
bytes of its escapes. -/
theorem Escaped.mem_decode {c : ℕ} (hc : c ∈ decode p) : (c ∈ p ∧ c ≠ percent) ∨ ok c := by
  induction h with
  | nil => cases hc
  | @char d p hd _ ih =>
    rw [decode_of_ne hd, mem_cons] at hc
    rcases hc with rfl | hc
    · exact .inl ⟨mem_cons_self, hd⟩
    · exact (ih hc).imp_left fun hin => ⟨mem_cons_of_mem _ hin.1, hin.2⟩
  | @escape a b x y p ha hb hok _ ih =>
    rw [decode_escape ha hb, mem_cons] at hc
    rcases hc with rfl | hc
    · exact .inr hok
    · exact (ih hc).imp_left fun hin =>
        ⟨mem_cons_of_mem _ (mem_cons_of_mem _ (mem_cons_of_mem _ hin.1)), hin.2⟩

/-- Nothing is left of a text only if there was nothing. -/
theorem Escaped.decode_eq_nil : decode p = [] ↔ p = [] := by
  cases h with
  | nil => simp
  | char hc h => simp [decode_of_ne hc]
  | escape ha hb hok h => simp [decode_escape ha hb]

/-- **The segments of a text that was decoded**, where no escape is a slash. -/
theorem Escaped.segments_decode (hslash : ¬ ok slash) :
    (decode p).splitOn slash = (p.splitOn slash).map decode := by
  induction h with
  | nil => rfl
  | @char c p hc _ ih =>
    rw [decode_of_ne hc, splitOn_cons_eq_if_modifyHead, splitOn_cons_eq_if_modifyHead, ih]
    split
    · rfl
    · cases p.splitOn slash with
      | nil => rfl
      | cons s rest => simp [decode_of_ne hc]
  | @escape a b x y p ha hb hok _ ih =>
    have hbyte : 16 * x + y ≠ slash := fun heq => hslash (heq ▸ hok)
    have hp : percent ≠ slash := by decide
    rw [decode_escape ha hb, splitOn_cons_eq_if_modifyHead, ih]
    simp only [splitOn_cons_eq_if_modifyHead, beq_iff_eq, hbyte, hp, ne_slash_of_hexValue ha,
      ne_slash_of_hexValue hb, if_false]
    cases p.splitOn slash with
    | nil => rfl
    | cons s rest => simp [decode_escape ha hb]

/-- Every segment is such a text. -/
theorem Escaped.of_mem_splitOn {s : Text} (hs : s ∈ p.splitOn slash) : Escaped ok s := by
  have hall : ∀ s ∈ p.splitOn slash, Escaped ok s := by
    clear hs s
    induction h with
    | nil => simpa using nil
    | @char c p hc _ ih =>
      rw [splitOn_cons_eq_if_modifyHead]
      split
      · simpa using ⟨nil, ih⟩
      · cases hsplit : p.splitOn slash with
        | nil => simp
        | cons s rest =>
          rw [hsplit] at ih
          simp only [modifyHead_cons, forall_mem_cons] at ih ⊢
          exact ⟨.char hc ih.1, ih.2⟩
    | @escape a b x y p ha hb hok _ ih =>
      have hp : percent ≠ slash := by decide
      simp only [splitOn_cons_eq_if_modifyHead, beq_iff_eq, hp, ne_slash_of_hexValue ha,
        ne_slash_of_hexValue hb, if_false]
      cases hsplit : p.splitOn slash with
      | nil => simp
      | cons s rest =>
        rw [hsplit] at ih
        simp only [modifyHead_cons, forall_mem_cons] at ih ⊢
        exact ⟨.escape ha hb hok ih.1, ih.2⟩
  exact hall s hs

end

/-! ## Ways to read a path -/

def segments (p : Text) : List Text := p.splitOn slash

def join (s : List Text) : Text := [slash].intercalate s

/-- A `..` removes the segment before it, but not the root. -/
def up : List Text → List Text
  | [] => []
  | [root] => [root]
  | _ :: out => out

/-- Dot segments are resolved, with the segments that are out, the last of them
first. A dot segment at the end leaves the empty segment of its directory. -/
def resolve : List Text → List Text → List Text
  | out, [] => out.reverse
  | out, s :: rest =>
    if s = [dot] then resolve (if rest = [] then [] :: out else out) rest
    else if s = [dot, dot] then resolve (if rest = [] then [] :: up out else up out) rest
    else resolve (s :: out) rest

/-- **One step of a way to read a path.** -/
inductive Step where
  /-- Decode percent escapes. -/
  | decode
  /-- Take backslashes for slashes. -/
  | backslash
  /-- Cut each segment at a semicolon. -/
  | params
  /-- Cut the path at a NUL. -/
  | nul
  /-- Resolve dot segments. -/
  | dots
  deriving DecidableEq

def Step.read : Step → Text → Text
  | .decode, p => UrlPath.decode p
  | .backslash, p => p.map fun c => if c = UrlPath.backslash then slash else c
  | .params, p => join ((segments p).map (List.takeWhile (· ≠ semicolon)))
  | .nul, p => p.takeWhile (· ≠ 0)
  | .dots, p => join (resolve [] (segments p))

/-- **A way to read a path**, step after step. -/
def read (steps : List Step) (p : Text) : Text := steps.foldl (fun p step => step.read p) p

/-! ## Paths that are read alike -/

/-- The characters at which readings part. -/
def Ambiguous (c : ℕ) : Prop :=
  c = 0 ∨ c = percent ∨ c = slash ∨ c = semicolon ∨ c = backslash

/-- **A clean path**: its escapes are no characters at which readings part,
there are none of these unescaped but slashes, and no segment is a dot segment
once it is decoded. -/
structure Clean (p : Text) : Prop where
  escaped : Escaped (fun c => ¬ Ambiguous c) p
  plain : ∀ c ∈ p, c ≠ 0 ∧ c ≠ semicolon ∧ c ≠ backslash
  dots : ∀ s ∈ segments p, decode s ≠ [dot] ∧ decode s ≠ [dot, dot]

theorem join_segments (p : Text) : join (segments p) = p := intercalate_splitOn slash

theorem mem_of_mem_segments {p s : Text} {c : ℕ} (hs : s ∈ segments p) (hc : c ∈ s) : c ∈ p := by
  have hall : ∀ s ∈ segments p, ∀ c ∈ s, c ∈ p := by
    clear hs hc
    unfold segments
    induction p with
    | nil => simp
    | cons d p ih =>
      rw [splitOn_cons_eq_if_modifyHead]
      split
      · simp only [forall_mem_cons, not_mem_nil, false_implies, implies_true, true_and]
        exact fun s hs c hc => mem_cons_of_mem _ (ih s hs c hc)
      · cases hsplit : p.splitOn slash with
        | nil => simp
        | cons s rest =>
          rw [hsplit, forall_mem_cons] at ih
          rw [modifyHead_cons, forall_mem_cons, forall_mem_cons]
          exact ⟨⟨mem_cons_self, fun c hc => mem_cons_of_mem _ (ih.1 c hc)⟩,
            fun s hs c hc => mem_cons_of_mem _ (ih.2 s hs c hc)⟩
  exact hall s hs c hc

/-- Nothing is resolved where there is no dot segment. -/
theorem resolve_eq {l : List Text} (h : ∀ s ∈ l, s ≠ [dot] ∧ s ≠ [dot, dot])
    (out : List Text) : resolve out l = out.reverse ++ l := by
  induction l generalizing out with
  | nil => simp [resolve]
  | cons s rest ih =>
    rw [forall_mem_cons] at h
    rw [resolve, if_neg h.1.1, if_neg h.1.2, ih h.2, reverse_cons, append_assoc, singleton_append]

section

variable {p : Text}

variable (h : Clean p)
include h

theorem Clean.segments_decode : segments (decode p) = (segments p).map decode :=
  h.escaped.segments_decode fun hok => hok (.inr (.inr (.inl rfl)))

/-- Decoding leaves no percent sign. -/
theorem Clean.percent_not_mem_decode : percent ∉ decode p := by
  intro hin
  rcases h.escaped.mem_decode hin with ⟨-, hne⟩ | hok
  · exact hne rfl
  · exact hok (.inr (.inl rfl))

/-- **A clean path that is decoded is clean.** -/
theorem Clean.decode : Clean (decode p) := by
  have hnone := h.percent_not_mem_decode
  refine ⟨?_, fun c hc => ?_, fun s hs => ?_⟩
  · have hall : ∀ {q : Text}, percent ∉ q → Escaped (fun c => ¬ Ambiguous c) q := by
      intro q hq
      induction q with
      | nil => exact .nil
      | cons c q ih =>
        rw [mem_cons, not_or] at hq
        exact .char (Ne.symm hq.1) (ih hq.2)
    exact hall hnone
  · rcases h.escaped.mem_decode hc with ⟨hin, -⟩ | hok
    · exact h.plain c hin
    · exact ⟨fun h0 => hok (.inl h0), fun h1 => hok (.inr (.inr (.inr (.inl h1)))),
        fun h2 => hok (.inr (.inr (.inr (.inr h2))))⟩
  · have hsegment : percent ∉ s := fun hin => hnone (mem_of_mem_segments hs hin)
    rw [decode_eq_self hsegment]
    rw [h.segments_decode, mem_map] at hs
    obtain ⟨s', hs', rfl⟩ := hs
    exact h.dots s' hs'

/-- No segment of a clean path is a dot segment as it stands. -/
theorem Clean.raw_dots {s : Text} (hs : s ∈ segments p) : s ≠ [dot] ∧ s ≠ [dot, dot] := by
  refine ⟨?_, ?_⟩
  · rintro rfl
    exact (h.dots _ hs).1 rfl
  · rintro rfl
    exact (h.dots _ hs).2 rfl

/-- **Every step but decoding leaves a clean path alone.** -/
theorem Clean.read_step {step : Step} (hstep : step ≠ .decode) : step.read p = p := by
  cases step with
  | decode => exact absurd rfl hstep
  | backslash =>
    refine (map_congr_left fun c hc => ?_).trans (map_id p)
    rw [if_neg (h.plain c hc).2.2, id]
  | params =>
    have hcut : (segments p).map (List.takeWhile (· ≠ semicolon)) = segments p := by
      refine (map_congr_left fun s hs => ?_).trans (map_id _)
      refine takeWhile_eq_self_iff.2 fun c hc => ?_
      simpa using (h.plain c (mem_of_mem_segments hs hc)).2.1
    rw [Step.read, hcut, join_segments]
  | nul =>
    refine takeWhile_eq_self_iff.2 fun c hc => ?_
    simpa using (h.plain c hc).1
  | dots =>
    rw [Step.read, resolve_eq (fun s hs => h.raw_dots hs), reverse_nil, nil_append, join_segments]

/-- **A clean path is read as it stands or decoded**, by whether the way to read
it decodes. -/
theorem Clean.read_eq (steps : List Step) :
    read steps p = if .decode ∈ steps then UrlPath.decode p else p := by
  induction steps generalizing p with
  | nil => rfl
  | cons step steps ih =>
    rw [read, foldl_cons, ← read]
    by_cases hstep : step = .decode
    · subst hstep
      rw [Step.read, ih h.decode, decode_eq_self h.percent_not_mem_decode, ite_self,
        if_pos mem_cons_self]
    · rw [h.read_step hstep, ih h]
      simp only [mem_cons, Ne.symm hstep, false_or]

end

/-! ## Initial parts -/

/-- The segments without the empty ones at the end. -/
def trimmed (s : List Text) : List Text := s.rdropWhile (· = [])

theorem trimmed_segments_prefix (p : Text) :
    trimmed (segments p) <+: segments (p.rdropWhile (· = slash)) := by
  unfold trimmed segments
  induction p using List.reverseRecOn with
  | nil => exact rdropWhile_prefix _ _
  | append_singleton q c ih =>
    by_cases hc : c = slash
    · subst hc
      rw [splitOn_append_cons_self, splitOn_nil, rdropWhile_concat,
        if_pos (by simp), rdropWhile_concat, if_pos (by simp)]
      exact ih
    · rw [rdropWhile_concat (· = slash), if_neg (by simpa using hc)]
      exact rdropWhile_prefix _ _

theorem mem_trimmed {l : List Text} {s : Text} (h : s ∈ l) (hne : s ≠ []) : s ∈ trimmed l := by
  rw [← rdropWhile_append_rtakeWhile (p := (· = [])) (l := l), mem_append] at h
  exact h.resolve_right fun hin => hne (by simpa using mem_rtakeWhile_imp hin)

/-- Decoding keeps which segments are empty. -/
theorem trimmed_map_decode {ok : ℕ → Prop} {l : List Text} (h : ∀ s ∈ l, Escaped ok s) :
    trimmed (l.map decode) = (trimmed l).map decode := by
  unfold trimmed
  induction l using List.reverseRecOn with
  | nil => rfl
  | append_singleton l s ih =>
    rw [map_append, map_singleton, rdropWhile_concat, rdropWhile_concat,
      ih fun s hs => h s (mem_append_left _ hs)]
    have hnil := (h s (by simp)).decode_eq_nil
    simp only [decide_eq_true_eq, hnil]
    split <;> simp

theorem exists_mem_segments {p : Text} {c : ℕ} (h : c ∈ p) (hc : c ≠ slash) :
    ∃ s ∈ segments p, c ∈ s := by
  unfold segments
  induction p with
  | nil => cases h
  | cons d p ih =>
    rw [splitOn_cons_eq_if_modifyHead]
    rcases mem_cons.1 h with rfl | hin
    · rw [if_neg (by simpa using hc)]
      cases hsplit : p.splitOn slash with
      | nil => exact absurd hsplit (splitOn_ne_nil _ _)
      | cons s rest => exact ⟨c :: s, by simp, by simp⟩
    · obtain ⟨s, hs, hcs⟩ := ih hin
      split
      · exact ⟨s, mem_cons_of_mem _ hs, hcs⟩
      · cases hsplit : p.splitOn slash with
        | nil => exact absurd hsplit (splitOn_ne_nil _ _)
        | cons s' rest =>
          rw [hsplit] at hs
          rcases mem_cons.1 hs with rfl | hs
          · exact ⟨d :: s, by simp, mem_cons_of_mem _ hcs⟩
          · exact ⟨s, by simp [hs], hcs⟩

section

variable {p q : Text}

/-- **A clean path within a clean prefix stays within it**, however both are
read. -/
theorem Clean.prefix_read (hq : Clean q) (hp : Clean p) (h : trimmed (segments q) <+: segments p)
    (steps : List Step) : trimmed (segments (read steps q)) <+: segments (read steps p) := by
  rw [hq.read_eq, hp.read_eq]
  split
  · rw [hq.segments_decode, hp.segments_decode,
      trimmed_map_decode fun s (hs : s ∈ segments q) => hq.escaped.of_mem_splitOn hs]
    exact h.map UrlPath.decode
  · exact h

/-- **The prefix as it stands** is an initial part of the path that is read if
nothing is decoded or there is nothing to decode in it, and only then. -/
theorem Clean.raw_prefix_iff (hq : Clean q) (hp : Clean p)
    (h : trimmed (segments q) <+: segments p) (steps : List Step) :
    trimmed (segments q) <+: segments (read steps p) ↔ .decode ∉ steps ∨ percent ∉ q := by
  by_cases hdecode : Step.decode ∈ steps
  · have hread := hq.prefix_read hp h steps
    rw [hq.read_eq, if_pos hdecode] at hread
    constructor
    · intro hraw
      refine .inr fun hin => ?_
      obtain ⟨s, hs, hps⟩ := exists_mem_segments hin (by decide)
      have hmem := hraw.subset (mem_trimmed hs (ne_nil_of_mem hps))
      rw [hp.read_eq, if_pos hdecode] at hmem
      exact hp.percent_not_mem_decode (mem_of_mem_segments hmem hps)
    · rintro (hno | hnone)
      · exact absurd hdecode hno
      · rwa [decode_eq_self hnone] at hread
  · rw [hp.read_eq, if_neg hdecode]
    exact ⟨fun _ => .inl hdecode, fun _ => h⟩

end

end Pydeno.UrlPath
